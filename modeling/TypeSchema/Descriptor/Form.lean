import TypeSchema.Descriptor.Basic
import TypeSchema.Reading.Basic

/-!
The written form of descriptors. A descriptor is an object with its kind under `kind`, wherever that
key stands, or an array that begins with the kind; its content is the rest. Content is set aside
until the kind is known, so that all of it is well formed before any of it is read.
-/
namespace TypeSchema

open Reading

inductive Form where
  | primitive
  | literal
  | null
  | wildcard
  | object
  | array
  | tuple
  | union
  | enumeration
  | unsupported
  deriving DecidableEq, Repr

def Form.choices : List (String × Form) :=
  [("primitive", .primitive), ("literal", .literal), ("null", .null), ("wildcard", .wildcard),
    ("object", .object), ("array", .array), ("tuple", .tuple), ("union", .union),
    ("enum", .enumeration), ("unsupported", .unsupported)]

def Primitive.choices : List (String × Primitive) :=
  [("number", .number), ("string", .string), ("boolean", .boolean)]

def Primitive.read : Spot → Document → Read Primitive := readChoice Primitive.choices

def Constant.ofJson? : Json → Option Constant
  | .null => some .null
  | .bool b => some (.bool b)
  | .number n => some (.number n)
  | .string s => some (.string s)
  | _ => none

def Constant.read (spot : Spot) (doc : Document) : Read Constant := do
  match Constant.ofJson? (← readJson spot doc) with
  | some c => return c
  | none => spot.fail .notScalar

namespace Member

def layout : Layout := ⟨"struct EnumMember", [("name", true), ("value", false)]⟩

def readField (key : String) (spot : Spot) (doc : Document) (m : Member) : Read Member :=
  if key = "name" then return { m with name := ← readString spot doc }
  else return { m with initializer := some (← readJson spot doc) }

def read : Spot → Document → Read Member := layout.read readField ⟨"", none⟩

end Member

namespace Enumeration

def layout : Layout := ⟨"struct EnumShape", [("name", false), ("members", true)]⟩

def readField (key : String) (spot : Spot) (doc : Document) (e : Enumeration) :
    Read Enumeration :=
  if key = "name" then return { e with name := ← readOption readString spot doc }
  else return { e with members := ← readList Member.read spot doc }

def read : Spot → Document → Read Enumeration := layout.read readField ⟨none, []⟩

end Enumeration

section
variable (readInner : Spot → Document → Read Descriptor)

namespace Field

def layout : Layout :=
  ⟨"struct RawField",
    [("name", true), ("optional", false), ("type", false), ("declarations", false)]⟩

/-- A field as it is written: one declaration may stand apart from the others, before them. -/
structure Written where
  name : String := ""
  optional : Bool := false
  first : Option Descriptor := none
  others : List Descriptor := []

def Written.field (w : Written) : Field := ⟨w.name, w.optional, w.first.toList ++ w.others⟩

def readField (key : String) (spot : Spot) (doc : Document) (w : Written) : Read Written :=
  if key = "name" then return { w with name := ← readString spot doc }
  else if key = "optional" then return { w with optional := ← readBool spot doc }
  else if key = "type" then return { w with first := ← readOption readInner spot doc }
  else return { w with others := ← readList readInner spot doc }

def readWith (spot : Spot) (doc : Document) : Read Field :=
  Written.field <$> layout.read (readField readInner) {} spot doc

end Field

namespace Shape

def layout : Layout := ⟨"struct ObjectShape", [("name", false), ("fields", false)]⟩

def readField (key : String) (spot : Spot) (doc : Document) (s : Shape) : Read Shape :=
  if key = "name" then return { s with name := ← readOption readString spot doc }
  else return { s with fields := ← readList (Field.readWith readInner) spot doc }

def readWith (spot : Spot) (doc : Document) : Read Shape :=
  layout.read (readField readInner) ⟨none, []⟩ spot doc

end Shape

end

namespace Descriptor

/-- The kind among the entries of an object, everything else being set aside. -/
def readTag (spot : Spot) : List (Document × Document) → Option Form → Read (Option Form)
  | [], form => pure form
  | (.string (some key), doc) :: rest, form =>
    if key = "kind" then
      match form with
      | some _ => spot.fail (.duplicateField "kind")
      | none => do
        let form ← readVariant Form.choices (spot.inside (.key "kind")) doc
        readTag spot rest (some form)
    else do
      spot.setAside doc
      readTag spot rest form
  | _ :: _, _ => .error .malformed

/-- The kind of a descriptor and its content. -/
def readTagged (spot : Spot) : Document → Read (Form × Document)
  | .object entries closed => do
    let form ← readTag spot entries none
    requireClosed closed
    match form with
    | some form => return (form, .object entries true)
    | none => spot.fail (.missingField "kind")
  | .array [] closed => do
    requireClosed closed
    spot.fail (.missingField "kind")
  | .array (kind :: rest) closed => do
    let form ← readVariant Form.choices (spot.inside (.index 0)) kind
    rest.forM spot.setAside
    requireClosed closed
    return (form, .array rest true)
  | doc => spot.wrongType .descriptor doc

def readSingle {α : Type} (noun name : String) (read : Spot → Document → Read α) (spot : Spot)
    (content : Document) : Read α := do
  let layout : Layout := ⟨"struct variant TypeDescriptor::" ++ noun, [(name, true)]⟩
  let state ← layout.read (fun _ spot doc _ => some <$> read spot doc) none spot content
  match state with
  | some a => return a
  | none => spot.fail (.missingField name)

def readNothing (spot : Spot) (content : Document) : Read Unit :=
  Layout.read ⟨"", []⟩ (fun _ _ _ state => pure state) () spot content

section
variable (readInner : Spot → Document → Read Descriptor)

def readContent (spot : Spot) (content : Document) : Form → Read Descriptor
  | .primitive => .primitive <$> readSingle "Primitive" "type" Primitive.read spot content
  | .literal => .literal <$> readSingle "Literal" "value" Constant.read spot content
  | .null => (fun _ => .null) <$> readNothing spot content
  | .wildcard => (fun _ => .wildcard) <$> readNothing spot content
  | .object => .object <$> Shape.readWith readInner spot content
  | .array => .array <$> readSingle "Array" "element" readInner spot content
  | .tuple => .tuple <$> readSingle "Tuple" "elements" (readList readInner) spot content
  | .union => .union <$> readSingle "Union" "members" (readList readInner) spot content
  | .enumeration => .enumeration <$> Enumeration.read spot content
  | .unsupported => .unsupported <$> readSingle "Unsupported" "syntax" readString spot content

end

/-- Reads a descriptor in which no more than `levels` lie inside one another. -/
def readWithin : Nat → Spot → Document → Read Descriptor
  | 0, _, _ => .error .malformed
  | levels + 1, spot, doc => do
    let (form, content) ← readTagged spot doc
    readContent (readWithin levels) spot.buffered content form

def read (spot : Spot) (doc : Document) : Read Descriptor :=
  readWithin (doc.nesting + 1) spot doc

/-- Reads a descriptor from the first value of a text. -/
def ofText (text : String) : Read Descriptor := fromText read text

def ofJson (value : Json) : Read Descriptor := fromJson read value

end Descriptor

def Field.read (spot : Spot) (doc : Document) : Read Field :=
  Field.readWith Descriptor.read spot doc

def Shape.read (spot : Spot) (doc : Document) : Read Shape :=
  Shape.readWith Descriptor.read spot doc

end TypeSchema
