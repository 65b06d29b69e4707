import TypeSchema.Compile.Classification

/-!
What a whole document denotes: an object, one of several objects, or an array of those. An array
root, or a tuple of one position, is opened once; the target inside is an object or a union in which
only objects are left once the unions in it are opened.
-/
namespace TypeSchema

/-- One of the objects that an entity may be. -/
structure Variant where
  name : Option String
  properties : Properties
  deriving Repr

structure Entity where
  name : Option String
  isArray : Bool
  variants : List Variant
  deriving Repr

namespace Entity

def rootName : String := "<root>"

/-- Whether a root is an array, and what it is an array of; else the root itself. -/
def target : Descriptor → Bool × Descriptor
  | .array element => (true, element)
  | .tuple [element] => (true, element)
  | root => (false, root)

def rootLocation (isArray : Bool) : Location :=
  ⟨rootName, if isArray then [.element] else []⟩

def reject {α : Type} (isArray : Bool) (found : Descriptor) : Compiled α :=
  (rootLocation isArray).reject
    (if isArray then .unsupportedElement found.label else .unsupportedRoot found.label)

mutual

/-- The objects of a target, whose unions are counted from `layer`. -/
def shapesAt (limit layer : Nat) (isArray : Bool) : Descriptor → Compiled (List Shape)
  | .object s => pure [s]
  | .union members =>
    if limit < layer then (rootLocation isArray).reject (.depthExceeded limit)
    else memberShapesAt limit (layer + 1) isArray members
  | d => reject isArray d

def memberShapesAt (limit layer : Nat) (isArray : Bool) :
    List Descriptor → Compiled (List Shape)
  | [] => pure []
  | d :: ds => do
    let first ← shapesAt limit layer isArray d
    let rest ← memberShapesAt limit layer isArray ds
    return first ++ rest

end

/-- An object whose fields are located from its own name. -/
def variantOf (limit : Nat) (s : Shape) : Compiled Variant := do
  let properties ← s.properties limit ⟨s.name.getD rootName, []⟩
  return ⟨s.name, properties⟩

def variantsOf (limit : Nat) : List Shape → Compiled (List Variant)
  | [] => pure []
  | s :: rest => do
    let first ← variantOf limit s
    let others ← variantsOf limit rest
    return first :: others

def targetName : Descriptor → Option String
  | .object s => s.name
  | _ => none

def ofDescriptor (limit : Nat) (root : Descriptor) : Compiled Entity := do
  let (isArray, target) := target root
  match ← shapesAt limit 1 isArray target with
  | [] => reject isArray target
  | shapes => return ⟨targetName target, isArray, ← variantsOf limit shapes⟩

def nameToJson : Option String → Json
  | some name => .string name
  | none => .null

def variantToJson (v : Variant) : Json :=
  .object [("name", nameToJson v.name),
    ("properties", .object (Alternative.propertiesToJson v.properties))]

def toJson (e : Entity) : Json :=
  .object [("name", nameToJson e.name), ("is_array", .bool e.isArray),
    ("allowed_types", .array (e.variants.map variantToJson))]

end Entity

end TypeSchema
