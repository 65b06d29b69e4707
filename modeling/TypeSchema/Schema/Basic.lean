import TypeSchema.Alternative

/-!
JSON Schema documents, in the part of the language that is written here.
-/
namespace TypeSchema

inductive Schema where
  /-- An object with these properties and no others. -/
  | object (properties : List (String × Schema)) (required : List String)
  /-- An array whose items are all alike. -/
  | array (items : Schema)
  /-- An array with a schema for each position. -/
  | tuple (items : List Schema)
  | types (names : List String)
  | const (value : Scalar)
  | any
  | anyOf (arms : List Schema)
  deriving Repr

namespace Schema

/-- A single fragment stands for itself; several are arms of `anyOf`; none leaves no constraint. -/
def combine : List Schema → Schema
  | [] => .any
  | [s] => s
  | arms => .anyOf arms

def typeEntry (name : String) : String × Json := ("type", .string name)

mutual

def toJson : Schema → Json
  | .object properties required =>
    .object [typeEntry "object", ("properties", .object (propertiesToJson properties)),
      ("required", .array (required.map .string)), ("additionalProperties", .bool false)]
  | .array items => .object [typeEntry "array", ("items", toJson items)]
  | .tuple items => .object [typeEntry "array", ("items", .array (listToJson items))]
  | .types names => .object [("type", .array (names.map .string))]
  | .const value => .object [("const", value.toJson)]
  | .any => .object []
  | .anyOf arms => .object [("anyOf", .array (listToJson arms))]

def listToJson : List Schema → List Json
  | [] => []
  | s :: rest => toJson s :: listToJson rest

def propertiesToJson : List (String × Schema) → List (String × Json)
  | [] => []
  | (name, s) :: rest => (name, toJson s) :: propertiesToJson rest

end

end Schema

end TypeSchema
