import TypeSchema.Descriptor.Basic

/-!
What a value may be: a list of alternatives, in which no union is left. The properties of an object
carry such a list each, and stand in the order of their fields.
-/
namespace TypeSchema

inductive Scalar where
  | string (value : String)
  | number (value : Number)
  | bool (value : Bool)
  deriving DecidableEq, Repr

mutual

inductive Alternative where
  | value (kind : Primitive)
  | literal (value : Scalar)
  | null
  | any
  | object (properties : List (String × Property))
  | array (items : List Alternative)
  | tuple (positions : List (List Alternative))
  deriving Repr

structure Property where
  optional : Bool
  alternatives : List Alternative
  deriving Repr

end

instance : Inhabited Alternative := ⟨.null⟩

abbrev Properties := List (String × Property)

namespace Scalar

def toJson : Scalar → Json
  | .string s => .string s
  | .number n => .number n
  | .bool b => .bool b

def ofNat (n : Nat) : Scalar := .number (.int n)

end Scalar

namespace Alternative

def isNull : Alternative → Bool
  | .null => true
  | _ => false

/-- An object that names the sort of the alternative, with its content if it has one. -/
def tagged (sort : String) (content : List (String × Json)) : Json :=
  .object (("type", .string sort) :: content)

mutual

def toJson : Alternative → Json
  | .value kind => tagged "value" [("value", .string kind.name)]
  | .literal s => tagged "literal" [("value", s.toJson)]
  | .null => tagged "null" []
  | .any => tagged "any" []
  | .object ps => tagged "object" [("value", .object (propertiesToJson ps))]
  | .array items => tagged "array" [("value", .array (listToJson items))]
  | .tuple positions => tagged "tuple" [("value", .array (positionsToJson positions))]

def listToJson : List Alternative → List Json
  | [] => []
  | a :: rest => toJson a :: listToJson rest

def positionsToJson : List (List Alternative) → List Json
  | [] => []
  | as :: rest => .array (listToJson as) :: positionsToJson rest

def propertiesToJson : List (String × Property) → List (String × Json)
  | [] => []
  | (name, ⟨optional, alternatives⟩) :: rest =>
    (name,
      .object [("is_optional", .bool optional), ("values", .array (listToJson alternatives))]) ::
        propertiesToJson rest

end

end Alternative

namespace Property

def acceptsNull (p : Property) : Bool := p.alternatives.any Alternative.isNull

/-- A property must be there unless it is optional or may be null: null stands for absence. -/
def isRequired (p : Property) : Bool := !p.optional && !p.acceptsNull

end Property

end TypeSchema
