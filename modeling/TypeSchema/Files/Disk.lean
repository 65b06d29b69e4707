import TypeSchema.Files.Path
import TypeSchema.Files.Pattern

/-!
Files, seen through the few operations that are needed, in any monad; and the files that a path
pattern names, in alphabetical order within each directory, a directory before what it holds.
-/
namespace TypeSchema

inductive FileError where
  | notFound
  | exists_
  | notDirectory
  | isDirectory
  | nameTooLong
  | notText
  | other (text : String)
  deriving DecidableEq, Repr

def FileError.text : FileError → String
  | .notFound => "No such file or directory (os error 2)"
  | .exists_ => "File exists (os error 17)"
  | .notDirectory => "Not a directory (os error 20)"
  | .isDirectory => "Is a directory (os error 21)"
  | .nameTooLong => "File name too long (os error 36)"
  | .notText => "stream did not contain valid UTF-8"
  | .other text => text

structure Disk (m : Type → Type) where
  /-- Whether something at a path is a directory, if there is something. -/
  isDirectory? : String → m (Option Bool)
  names : String → m (Except FileError (List String))
  readText : String → m (Except FileError String)
  writeText : String → String → m (Except FileError Unit)
  makeDirectory : String → m (Except FileError Unit)

namespace Disk

structure Unsearched where
  directory : String
  error : FileError
  deriving DecidableEq, Repr

def Unsearched.text (e : Unsearched) : String :=
  "attempting to read `" ++ e.directory ++ "` resulted in an error: " ++ e.error.text

/-- A path that a search finds, or a directory that it cannot look into. -/
abbrev Hit := Except Unsearched String

def paths (hits : List Hit) : List String := hits.filterMap Except.toOption

variable {m : Type → Type} [Monad m] (disk : Disk m)

/-- Makes a directory and all that are missing above it, in at most so many attempts. -/
def makeDirectoriesWithin : Nat → String → m (Except FileError Unit)
  | 0, _ => pure (.error .notFound)
  | n + 1, path => do
    let attempt : m (Except FileError Unit) := do
      match ← disk.makeDirectory path with
      | .ok () => return .ok ()
      | .error e => return if (← disk.isDirectory? path) = some true then .ok () else .error e
    if path = "" then return .ok ()
    match ← attempt with
    | .error .notFound =>
      match Path.parent? path with
      | none => return .error .notFound
      | some parent =>
        match ← makeDirectoriesWithin n parent with
        | .error e => return .error e
        | .ok () => attempt
    | result => return result

def makeDirectories (path : String) : m (Except FileError Unit) :=
  disk.makeDirectoriesWithin (path.length + 1) path

/-- The path of an entry, where the current directory is not named. -/
def entryPath (directory name : String) : String :=
  if Path.trimReversed (Path.pieces directory).reverse = ["."] then name
  else Path.join directory name

def dropRecursive : List Pattern → List Pattern
  | [] => []
  | p :: rest => if p.isRecursive then dropRecursive rest else p :: rest

section
variable (directoriesOnly : Bool)

/-- What the patterns after a matched entry find: the entry itself when none are left. -/
def continueWith (inside : String → List Pattern → m (List Hit)) (path : String)
    (patterns : List Pattern) : m (List Hit) := do
  match patterns with
  | [] =>
    if directoriesOnly then
      return if (← disk.isDirectory? path) = some true then [.ok path] else []
    else return [.ok path]
  | patterns => inside path patterns

def matchName (inside : String → List Pattern → m (List Hit)) (path name : String)
    (patterns : List Pattern) : m (List Hit) :=
  match patterns with
  | [] => pure []
  | p :: rest =>
    if p.isMatch name.toList then disk.continueWith directoriesOnly inside path rest else pure []

/-- What an entry of a directory leads to. Two stars match a directory, and everything in it. -/
def visit (inside : String → List Pattern → m (List Hit)) (path name : String)
    (patterns : List Pattern) : m (List Hit) := do
  match patterns with
  | [] => return []
  | p :: _ =>
    if p.isRecursive then
      let rest := dropRecursive patterns
      if (← disk.isDirectory? path) = some true then
        let here ← if rest.isEmpty then pure [.ok path]
          else disk.matchName directoriesOnly inside path name rest
        return here ++ (← inside path (p :: rest))
      else if rest.isEmpty then return []
      else disk.matchName directoriesOnly inside path name rest
    else disk.matchName directoriesOnly inside path name patterns

def findWithin : Nat → String → List Pattern → m (List Hit)
  | 0, _, _ => pure []
  | _, _, [] => pure []
  | levels + 1, directory, p :: rest => do
    let inside := findWithin levels
    let isDirectory := (← disk.isDirectory? directory) == some true
    match p.name? with
    | some name =>
      let name := String.ofList name
      let path := entryPath directory name
      let found ← if name = "." || name = ".." then pure isDirectory
        else (·.isSome) <$> disk.isDirectory? path
      if found then disk.continueWith directoriesOnly inside path rest else return []
    | none =>
      if isDirectory then
        match ← disk.names directory with
        | .error e => return [.error ⟨directory, e⟩]
        | .ok names =>
          let special ← (if p.head? = some (.char '.') then ["..", "."] else []).mapM fun name =>
            if p.isMatch name.toList then
              disk.continueWith directoriesOnly inside (Path.join directory name) rest
            else pure []
          let found ← (names.mergeSort (· ≤ ·)).mapM fun name =>
            disk.visit directoriesOnly inside (entryPath directory name) name (p :: rest)
          return special.flatten ++ found.flatten
      else return []

end

def maxPathLength : Nat := 4096

/-- The pieces of a path pattern: a slash at its end leaves none after it. -/
def patternPieces (text : String) : List String :=
  let pieces := Path.pieces text
  if pieces.getLast? = some "" then pieces.dropLast else pieces

def find (text : String) : m (Except Pattern.Error (List Hit)) := do
  match Pattern.parse text, (patternPieces text).mapM Pattern.parse with
  | .error e, _ => return .error e
  | _, .error e => return .error e
  | .ok _, .ok patterns =>
    let directoriesOnly := text.toList.getLast? == some '/'
    let levels := maxPathLength + patterns.length
    if Path.isAbsolute text then
      return .ok (← disk.findWithin directoriesOnly levels "/" (patterns.drop 1))
    else return .ok (← disk.findWithin directoriesOnly levels "." patterns)

end Disk

end TypeSchema
