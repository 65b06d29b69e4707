import TypeSchema.Text

/-!
Paths as text. The parts of a path are separated by slashes; empty parts and inner `.` parts carry
no meaning, and a path that begins with a slash begins at the root.
-/
namespace TypeSchema.Path

def pieces (path : String) : List String := (Text.split '/' path.toList).map String.ofList

def isAbsolute (path : String) : Bool := path.toList.head? == some '/'

/-- A path below another one. An absolute path stands for itself. -/
def join (base sub : String) : String :=
  if isAbsolute sub then sub
  else if base = "" || base.toList.getLast? == some '/' then base ++ sub
  else base ++ "/" ++ sub

/-- Drops pieces without meaning from the end, given in reverse; the very first piece keeps its. -/
def trimReversed : List String → List String
  | [] => []
  | [first] => if first = "" then [] else [first]
  | piece :: rest => if piece = "" || piece = "." then trimReversed rest else piece :: rest

def parent? (path : String) : Option String :=
  let absolute := isAbsolute path
  let relative := if absolute then (pieces path).drop 1 else pieces path
  match trimReversed relative.reverse with
  | [] => none
  | _ :: rest =>
    let text := "/".intercalate (trimReversed rest).reverse
    some (if absolute then "/" ++ text else text)

def fileName? (path : String) : Option String :=
  match trimReversed (pieces path).reverse with
  | [] => none
  | last :: _ => if last = "." || last = ".." then none else some last

/-- Every occurrence of a text, from the left, replaced by another; `skip` characters of an
occurrence are still to be passed over. -/
def replaceChars (old new : List Char) : Nat → List Char → List Char
  | _, [] => []
  | skip + 1, _ :: rest => replaceChars old new skip rest
  | 0, c :: rest =>
    if old.isPrefixOf (c :: rest) then new ++ replaceChars old new (old.length - 1) rest
    else c :: replaceChars old new 0 rest

def replaceAll (old new path : String) : String :=
  String.ofList (replaceChars old.toList new.toList 0 path.toList)

end TypeSchema.Path
