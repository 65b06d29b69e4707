import TypeSchema.Files.Disk

/-!
The disk of the machine that the program runs on.
-/
namespace TypeSchema

/-- The number of an error, which some operations report with its sign changed. -/
def FileError.systemCode (code : UInt32) : UInt32 := if code < 0x80000000 then code else -code

def FileError.ofError (e : IO.Error) : FileError :=
  match e with
  | .noFileOrDirectory .. => .notFound
  | .alreadyExists .. => .exists_
  | .inappropriateType _ code _ =>
    if systemCode code = 20 then .notDirectory
    else if systemCode code = 21 then .isDirectory
    else .other (toString e)
  | .permissionDenied _ code _ =>
    .other ("Permission denied (os error " ++ toString (systemCode code) ++ ")")
  | e => .other (toString e)

namespace Disk

def attempt {α : Type} (action : IO α) : IO (Except FileError α) := do
  try return .ok (← action) catch e => return .error (.ofError e)

def readLocalText (path : String) : IO (Except FileError String) := do
  match ← attempt (IO.FS.readBinFile path) with
  | .error e => return .error e
  | .ok bytes =>
    match String.fromUTF8? bytes with
    | some text => return .ok text
    | none => return .error .notText

/-- Paths that are not absolute begin at the current directory. -/
def localDisk : Disk IO where
  isDirectory? path := do
    if path = "" then return none
    let full := (← IO.currentDir) / path
    if ← full.pathExists then return some (← full.isDir) else return none
  names path := do
    let entries ← attempt ((← IO.currentDir) / path).readDir
    return entries.map fun entries => entries.toList.map (·.fileName)
  readText := readLocalText
  writeText path text := attempt (IO.FS.writeFile path text)
  makeDirectory path := attempt (IO.FS.createDir path)

end Disk

end TypeSchema
