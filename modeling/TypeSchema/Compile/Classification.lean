import TypeSchema.Alternative
import TypeSchema.Compile.Rejection

/-!
From a descriptor to the alternatives that it stands for. A union contributes the alternatives of
its members in order, an enumeration one literal for each member, and everything else a single
alternative. Every array, tuple, object and union is one level deeper than what encloses it, and
nothing may lie deeper than the limit.
-/
namespace TypeSchema

/-- Either the result for a descriptor or the first reason to reject it. -/
abbrev Compiled (α : Type) := Except Rejection α

def Location.reject {α : Type} (at_ : Location) (cause : Rejection.Cause) : Compiled α :=
  .error ⟨at_, cause⟩

namespace Constant

def alternative : Constant → Alternative
  | .null => .null
  | .bool b => .literal (.bool b)
  | .number n => .literal (.number n)
  | .string s => .literal (.string s)

end Constant

namespace Member

/-- A scalar initializer, or else the position of the member. -/
def alternative (at_ : Location) (ordinal : Nat) (m : Member) : Compiled Alternative :=
  match m.initializer with
  | none => pure (.literal (Scalar.ofNat ordinal))
  | some (.string s) => pure (.literal (.string s))
  | some (.number n) => pure (.literal (.number n))
  | some (.bool b) => pure (.literal (.bool b))
  | some other => at_.reject (.unknownInitializer m.name other)

def alternatives (at_ : Location) : Nat → List Member → Compiled (List Alternative)
  | _, [] => pure []
  | ordinal, m :: ms => do
    let a ← m.alternative at_ ordinal
    let rest ← alternatives at_ (ordinal + 1) ms
    return a :: rest

end Member

def Enumeration.alternatives (at_ : Location) (e : Enumeration) : Compiled (List Alternative) :=
  match e.members with
  | [] => at_.reject .emptyEnumeration
  | ms => Member.alternatives at_ 0 ms

def countNamed (name : String) (fields : List Field) : Nat :=
  (fields.filter (·.name == name)).length

namespace Descriptor

mutual

/-- The alternatives of a descriptor found at a depth. -/
def alternativesAt (limit depth : Nat) (at_ : Location) (d : Descriptor) :
    Compiled (List Alternative) :=
  if limit < depth then at_.reject (.depthExceeded limit)
  else
    match d with
    | .primitive kind => pure [.value kind]
    | .literal c => pure [c.alternative]
    | .null => pure [.null]
    | .wildcard => pure [.any]
    | .object ⟨_, fields⟩ => do
      let ps ← propertiesAt limit (depth + 1) at_ fields [] fields
      return [.object ps]
    | .array element => do
      let items ← alternativesAt limit (depth + 1) at_.element element
      return [.array items]
    | .tuple elements => do
      let positions ← positionsAt limit (depth + 1) at_ 0 elements
      return [.tuple positions]
    | .union members => do
      match ← memberAlternativesAt limit (depth + 1) at_ members with
      | [] => at_.reject .emptyUnion
      | flat => return flat
    | .enumeration e => e.alternatives at_
    | .unsupported spelling => at_.reject (.unsupportedType spelling)

def memberAlternativesAt (limit depth : Nat) (at_ : Location) :
    List Descriptor → Compiled (List Alternative)
  | [] => pure []
  | d :: ds => do
    let first ← alternativesAt limit depth at_ d
    let rest ← memberAlternativesAt limit depth at_ ds
    return first ++ rest

def positionsAt (limit depth : Nat) (at_ : Location) :
    Nat → List Descriptor → Compiled (List (List Alternative))
  | _, [] => pure []
  | i, d :: ds => do
    let first ← alternativesAt limit depth (at_.position i) d
    let rest ← positionsAt limit depth at_ (i + 1) ds
    return first :: rest

/-- The properties of fields of which `seen` come before; `all` are the fields of the object. -/
def propertiesAt (limit depth : Nat) (at_ : Location) (all : List Field) :
    List String → List Field → Compiled Properties
  | _, [] => pure []
  | seen, ⟨name, optional, declarations⟩ :: fields =>
    let here := at_.field name
    if seen.contains name then here.reject (.ambiguousDeclaration (countNamed name all))
    else
      match declarations with
      | [] => here.reject .missingDeclaration
      | [d] => do
        let alternatives ← alternativesAt limit depth here d
        let rest ← propertiesAt limit depth at_ all (name :: seen) fields
        return (name, ⟨optional, alternatives⟩) :: rest
      | d :: e :: more => here.reject (.ambiguousDeclaration (d :: e :: more).length)

end

def alternatives (limit : Nat) (at_ : Location) (d : Descriptor) : Compiled (List Alternative) :=
  alternativesAt limit 0 at_ d

end Descriptor

def Shape.properties (limit : Nat) (at_ : Location) (s : Shape) : Compiled Properties :=
  Descriptor.propertiesAt limit 0 at_ s.fields [] s.fields

end TypeSchema
