import TypeSchema.Command.Basic
import TypeSchema.Text

/-!
The request that a list of arguments makes. The first argument names the product or asks for help or
the version; options follow in any order. No option but `--input` is given twice, and only `--input`
takes several values. What begins with a dash is never a value, except a dash alone.
-/
namespace TypeSchema.Command

inductive Setting where
  | pointer
  | filter
  | input
  | file
  | maxDepth
  | nullPolicy
  deriving DecidableEq, Repr

inductive Flag where
  | compact
  | describe
  deriving DecidableEq, Repr

def settings : List (String × Setting) :=
  [("json-pointer", .pointer), ("jq-expr", .filter), ("input", .input), ("out", .file),
    ("max-depth", .maxDepth), ("null-only", .nullPolicy)]

def letters : List (Char × Setting) := [('i', .input), ('o', .file)]

def flags : List (String × Flag) := [("compact", .compact), ("no-op", .describe)]

inductive Argument where
  | value (text : String)
  | flag (flag : Flag)
  | setting (setting : Setting)
  | assignment (setting : Setting) (text : String)
  | help
  /-- Two dashes: there are no more options. -/
  | stop
  | unknown
  deriving DecidableEq, Repr

namespace Argument

def ofLong (text : List Char) : Argument :=
  let name := String.ofList (text.takeWhile (· != '='))
  match text.dropWhile (· != '=') with
  | [] =>
    if name = "" then .stop
    else if name = "help" then .help
    else
      match flags.lookup name, settings.lookup name with
      | some f, _ => .flag f
      | none, some s => .setting s
      | none, none => .unknown
  | _ :: attached =>
    match settings.lookup name with
    | some s => .assignment s (String.ofList attached)
    | none => .unknown

def ofShort (c : Char) (rest : List Char) : Argument :=
  if c = 'h' then .help
  else
    match letters.lookup c, rest with
    | none, _ => .unknown
    | some s, [] => .setting s
    | some s, '=' :: attached => .assignment s (String.ofList attached)
    | some s, attached => .assignment s (String.ofList attached)

def ofText (text : String) : Argument :=
  match text.toList with
  | '-' :: '-' :: rest => ofLong rest
  | '-' :: c :: rest => ofShort c rest
  | _ => .value text

end Argument

/-- The options met so far. -/
structure Draft where
  pointer : Option String := none
  filter : Option String := none
  inputs : List String := []
  file : Option String := none
  maxDepth : Option Nat := none
  nullPolicy : Option NullPolicy := none
  isCompact : Bool := false
  isDescribed : Bool := false

namespace Draft

/-- A limit: digits after an optional plus sign, below 2 to the power of 64. -/
def readLimit? (text : String) : Option Nat :=
  let digits := match text.toList with
    | '+' :: digits => digits
    | digits => digits
  (Text.natural? digits).filter (· < Nat.pow 2 64)

def setOnce {α : Type} (old : Option α) (new : α) : Option (Option α) :=
  match old with
  | none => some (some new)
  | some _ => none

def put (d : Draft) (text : String) : Setting → Option Draft
  | .pointer => return { d with pointer := ← setOnce d.pointer text }
  | .filter => return { d with filter := ← setOnce d.filter text }
  | .input => return { d with inputs := d.inputs ++ [text] }
  | .file => if text = "" then none else return { d with file := ← setOnce d.file text }
  | .maxDepth => return { d with maxDepth := ← setOnce d.maxDepth (← readLimit? text) }
  | .nullPolicy => do
    let policy ← NullPolicy.choices.lookup text
    return { d with nullPolicy := ← setOnce d.nullPolicy policy }

def raise (d : Draft) : Flag → Option Draft
  | .compact => if d.isCompact then none else some { d with isCompact := true }
  | .describe => if d.isDescribed then none else some { d with isDescribed := true }

/-- There has to be an input. -/
def invocation? (product : Product) (d : Draft) : Option Invocation :=
  let default : Settings := {}
  if d.inputs.isEmpty then none
  else some
    { product
      inputs := ⟨d.pointer, d.filter, d.inputs⟩
      output := ⟨d.file, d.isCompact⟩
      settings :=
        ⟨d.maxDepth.getD default.maxDepth, d.nullPolicy.getD default.nullPolicy⟩
      isDescribed := d.isDescribed }

end Draft

/-- The values that may come next. -/
inductive Expected where
  | nothing
  /-- A value has to come. -/
  | first (setting : Setting)
  /-- More inputs may come. -/
  | more

def Expected.after : Setting → Expected
  | .input => .more
  | _ => .nothing

def gather (product : Product) : Expected → Draft → List String → Option Request
  | .first _, _, [] => none
  | _, d, [] => .run <$> d.invocation? product
  | expected, d, arg :: rest =>
    match Argument.ofText arg, expected with
    | .value text, .first s => do gather product (.after s) (← d.put text s) rest
    | .value text, .more => do gather product .more (← d.put text .input) rest
    | .value _, .nothing => none
    | _, .first _ => none
    | .flag f, _ => do gather product .nothing (← d.raise f) rest
    | .setting s, _ => gather product (.first s) d rest
    | .assignment s text, _ => do gather product .nothing (← d.put text s) rest
    | .stop, _ => if rest.isEmpty then .run <$> d.invocation? product else none
    | .help, _ => some .help
    | .unknown, _ => none

def products : List (String × Product) := [("schema", .schema), ("entity", .entity)]

def Request.ofArguments? : List String → Option Request
  | [] => none
  | arg :: rest =>
    match products.lookup arg, arg.toList with
    | some product, _ => gather product .nothing {} rest
    | none, '-' :: 'V' :: _ => some .version
    | none, '-' :: 'h' :: _ => some .help
    | none, _ =>
      if arg = "--version" then some .version
      else if arg = "--help" then some .help
      else if arg = "help" then
        match rest with
        | [] => some .help
        | name :: _ =>
          if (products.lookup name).isSome || name = "help" then some .help else none
      else none

end TypeSchema.Command
