import TypeSchema.Json.Basic

/-!
Descriptors: types as a front end has resolved them, with aliases expanded and enumerations spelt
out. A field carries every declaration that was found for it; a well-resolved one has exactly one.
-/
namespace TypeSchema

inductive Primitive where
  | number
  | string
  | boolean
  deriving DecidableEq, Repr

inductive Constant where
  | null
  | bool (value : Bool)
  | number (value : Number)
  | string (value : String)
  deriving DecidableEq, Repr

/-- A member of an enumeration. Without an initializer it stands for its position; an explicit null
is an initializer. -/
structure Member where
  name : String
  initializer : Option Json
  deriving Repr, Inhabited

structure Enumeration where
  name : Option String
  members : List Member
  deriving Repr, Inhabited

mutual

inductive Descriptor where
  | primitive (kind : Primitive)
  | literal (value : Constant)
  | null
  | wildcard
  | object (shape : Shape)
  | array (element : Descriptor)
  | tuple (elements : List Descriptor)
  | union (members : List Descriptor)
  | enumeration (shape : Enumeration)
  | unsupported (spelling : String)
  deriving Repr

structure Shape where
  name : Option String
  fields : List Field
  deriving Repr

structure Field where
  name : String
  optional : Bool
  declarations : List Descriptor
  deriving Repr

end

def Primitive.name : Primitive → String
  | .number => "number"
  | .string => "string"
  | .boolean => "boolean"

namespace Constant

def same : Constant → Constant → Bool
  | .null, .null => true
  | .bool a, .bool b => a == b
  | .number m, .number n => m.same n
  | .string s, .string t => s == t
  | _, _ => false

end Constant

namespace Member

def same (a b : Member) : Bool :=
  a.name == b.name &&
    match a.initializer, b.initializer with
    | none, none => true
    | some v, some w => v.same w
    | _, _ => false

def sameList : List Member → List Member → Bool
  | [], [] => true
  | a :: as, b :: bs => a.same b && sameList as bs
  | _, _ => false

end Member

namespace Descriptor

/-- The word for a descriptor in messages. -/
def label : Descriptor → String
  | .primitive _ => "primitive"
  | .literal _ => "literal"
  | .null => "null"
  | .wildcard => "wildcard"
  | .object _ => "object"
  | .array _ => "array"
  | .tuple _ => "tuple"
  | .union _ => "union"
  | .enumeration _ => "enum"
  | .unsupported _ => "unsupported type"

mutual

/-- The number of descriptors and members of enumerations in a descriptor. -/
def size : Descriptor → Nat
  | .object ⟨_, fields⟩ => fieldsSize fields + 1
  | .array element => size element + 1
  | .tuple elements => listSize elements + 1
  | .union members => listSize members + 1
  | .enumeration e => e.members.length + 1
  | _ => 1

def fieldsSize : List Field → Nat
  | [] => 0
  | ⟨_, _, declarations⟩ :: fields => listSize declarations + fieldsSize fields

def listSize : List Descriptor → Nat
  | [] => 0
  | d :: ds => size d + listSize ds

end

mutual

/-- Equality up to the equality of the JSON values inside. -/
def same : Descriptor → Descriptor → Bool
  | .primitive a, .primitive b => a == b
  | .literal a, .literal b => a.same b
  | .null, .null => true
  | .wildcard, .wildcard => true
  | .object ⟨m, fs⟩, .object ⟨n, gs⟩ => m == n && sameFields fs gs
  | .array d, .array e => same d e
  | .tuple ds, .tuple es => sameList ds es
  | .union ds, .union es => sameList ds es
  | .enumeration a, .enumeration b => a.name == b.name && Member.sameList a.members b.members
  | .unsupported a, .unsupported b => a == b
  | _, _ => false

def sameFields : List Field → List Field → Bool
  | [], [] => true
  | ⟨m, o, ds⟩ :: fs, ⟨n, p, es⟩ :: gs => m == n && o == p && sameList ds es && sameFields fs gs
  | _, _ => false

def sameList : List Descriptor → List Descriptor → Bool
  | [], [] => true
  | d :: ds, e :: es => same d e && sameList ds es
  | _, _ => false

end

end Descriptor

end TypeSchema
