import TypeSchema.Files.Disk

/-!
A tree of files held in memory. A path is followed name by name, through directories only; every
directory but the root is an entry of its own.
-/
namespace TypeSchema

/-- A file, whose content may be no text, or a directory. -/
inductive Tree.Node where
  | file (text : Option String)
  | directory
  deriving DecidableEq, Repr

/-- The names that lead to a file or a directory from the root. -/
abbrev Tree.Site := List String

structure Tree where
  current : Tree.Site
  entries : List (Tree.Site × Tree.Node)
  deriving Repr

namespace Tree

def maxNameSize : Nat := 255

def node? (tree : Tree) : Site → Option Node
  | [] => some .directory
  | site => tree.entries.lookup site

def put (tree : Tree) (site : Site) (node : Node) : Tree :=
  { tree with entries := (site, node) :: tree.entries.filter (·.1 != site) }

/-- Where pieces of a path lead from a site. There need not be anything at the end. -/
def follow (tree : Tree) : Site → List String → Except FileError Site
  | site, [] => pure site
  | site, piece :: rest =>
    match tree.node? site with
    | none => .error .notFound
    | some (.file _) => .error .notDirectory
    | some .directory =>
      if piece = "" || piece = "." then follow tree site rest
      else if piece = ".." then follow tree site.dropLast rest
      else if maxNameSize < piece.utf8ByteSize then .error .nameTooLong
      else follow tree (site ++ [piece]) rest

def maxPathSize : Nat := 4095

def checkSize (path : String) : Except FileError Unit :=
  if maxPathSize < path.utf8ByteSize then .error .nameTooLong else pure ()

def locate (tree : Tree) (path : String) : Except FileError Site := do
  checkSize path
  if path = "" then .error .notFound
  else tree.follow (if Path.isAbsolute path then [] else tree.current) (Path.pieces path)

def find (tree : Tree) (path : String) : Except FileError (Site × Node) := do
  let site ← tree.locate path
  match tree.node? site with
  | some node => return (site, node)
  | none => .error .notFound

def isDirectory? (tree : Tree) (path : String) : Option Bool :=
  match tree.find path with
  | .ok (_, node) => some (node = .directory)
  | .error _ => none

def names (tree : Tree) (path : String) : Except FileError (List String) := do
  let (site, node) ← tree.find path
  if node = .directory then
    return tree.entries.filterMap fun (inside, _) =>
      match inside.getLast? with
      | some name => if inside.dropLast = site then some name else none
      | none => none
  else .error .notDirectory

def readText (tree : Tree) (path : String) : Except FileError String := do
  match ← tree.find path with
  | (_, .directory) => .error .isDirectory
  | (_, .file none) => .error .notText
  | (_, .file (some text)) => return text

/-- A path without the slashes at its end, except the one that is the root. -/
def withoutEnd (path : String) : String :=
  let text := String.ofList (path.toList.reverse.dropWhile (· == '/')).reverse
  if text = "" then path else text

/-- The file to write at a path. A slash at the end asks for a directory. -/
def locateFile (tree : Tree) (path : String) : Except FileError Site := do
  checkSize path
  let site ← tree.locate (withoutEnd path)
  if path.toList.getLast? == some '/' || tree.node? site = some .directory then
    .error .isDirectory
  else return site

def writeText (tree : Tree) (path text : String) : Except FileError Tree := do
  return tree.put (← tree.locateFile path) (.file (some text))

def makeDirectory (tree : Tree) (path : String) : Except FileError Tree := do
  checkSize path
  let site ← tree.locate (withoutEnd path)
  if (tree.node? site).isSome then .error .exists_ else return tree.put site .directory

def update (change : Tree → Except FileError Tree) : StateM Tree (Except FileError Unit) :=
  fun tree =>
    match change tree with
    | .ok tree => (.ok (), tree)
    | .error e => (.error e, tree)

def disk : Disk (StateM Tree) where
  isDirectory? path := (·.isDirectory? path) <$> get
  names path := (·.names path) <$> get
  readText path := (·.readText path) <$> get
  writeText path text := update (·.writeText path text)
  makeDirectory path := update (·.makeDirectory path)

end Tree

end TypeSchema
