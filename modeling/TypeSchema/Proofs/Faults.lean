import TypeSchema.Proofs.Listing

/-!
All faults of a descriptor, in the order in which a walk meets them that goes on after each. A
compilation gives the listing of a descriptor without faults, and otherwise its first fault.
-/
namespace TypeSchema

def verdict {α : Type} (faults : List Rejection) (a : α) : Compiled α :=
  match faults with
  | [] => .ok a
  | r :: _ => .error r

namespace Json

def isScalar : Json → Bool
  | .string _ => true
  | .number _ => true
  | .bool _ => true
  | _ => false

end Json

namespace Member

def fault? (at_ : Location) (m : Member) : Option Rejection :=
  match m.initializer with
  | none => none
  | some v => if v.isScalar then none else some ⟨at_, .unknownInitializer m.name v⟩

end Member

def Enumeration.faults (at_ : Location) (e : Enumeration) : List Rejection :=
  if e.members.isEmpty then [⟨at_, .emptyEnumeration⟩] else e.members.filterMap (Member.fault? at_)

namespace Descriptor

mutual

/-- The faults of a descriptor found at a depth; nothing below the limit is looked at. -/
def faultsAt (limit depth : Nat) (at_ : Location) (d : Descriptor) : List Rejection :=
  if limit < depth then [⟨at_, .depthExceeded limit⟩]
  else
    match d with
    | .primitive _ => []
    | .literal _ => []
    | .null => []
    | .wildcard => []
    | .object ⟨_, fields⟩ => fieldFaultsAt limit (depth + 1) at_ fields [] fields
    | .array element => faultsAt limit (depth + 1) at_.element element
    | .tuple elements => positionFaultsAt limit (depth + 1) at_ 0 elements
    | .union members =>
      if members.isEmpty then [⟨at_, .emptyUnion⟩]
      else memberFaultsAt limit (depth + 1) at_ members
    | .enumeration e => e.faults at_
    | .unsupported spelling => [⟨at_, .unsupportedType spelling⟩]

def memberFaultsAt (limit depth : Nat) (at_ : Location) : List Descriptor → List Rejection
  | [] => []
  | d :: ds => faultsAt limit depth at_ d ++ memberFaultsAt limit depth at_ ds

def positionFaultsAt (limit depth : Nat) (at_ : Location) : Nat → List Descriptor → List Rejection
  | _, [] => []
  | i, d :: ds =>
    faultsAt limit depth (at_.position i) d ++ positionFaultsAt limit depth at_ (i + 1) ds

/-- The faults of fields of which `seen` come before; `all` are the fields of the object. A field
under a name seen before is not looked into. -/
def fieldFaultsAt (limit depth : Nat) (at_ : Location) (all : List Field) :
    List String → List Field → List Rejection
  | _, [] => []
  | seen, ⟨name, _, declarations⟩ :: fields =>
    (if seen.contains name then [⟨at_.field name, .ambiguousDeclaration (countNamed name all)⟩]
      else declarationFaultsAt limit depth (at_.field name) declarations) ++
      fieldFaultsAt limit depth at_ all (name :: seen) fields

def declarationFaultsAt (limit depth : Nat) (at_ : Location) : List Descriptor → List Rejection
  | [] => [⟨at_, .missingDeclaration⟩]
  | [d] => faultsAt limit depth at_ d
  | ds => [⟨at_, .ambiguousDeclaration ds.length⟩]

end

theorem faultsAt_of_lt {limit depth : Nat} (at_ : Location) (d : Descriptor)
    (h : limit < depth) : faultsAt limit depth at_ d = [⟨at_, .depthExceeded limit⟩] := by
  cases d with
  | object s =>
    cases s
    exact if_pos h
  | _ => exact if_pos h

/-! What is looked at within the limit. -/

section
variable {limit depth : Nat} (h : depth ≤ limit) (at_ : Location)
include h

theorem faultsAt_object (s : Shape) :
    faultsAt limit depth at_ (.object s) =
      fieldFaultsAt limit (depth + 1) at_ s.fields [] s.fields := by
  obtain ⟨name, fields⟩ := s
  exact if_neg (Nat.not_lt.mpr h)

theorem faultsAt_array (element : Descriptor) :
    faultsAt limit depth at_ (.array element) = faultsAt limit (depth + 1) at_.element element :=
  if_neg (Nat.not_lt.mpr h)

theorem faultsAt_tuple (elements : List Descriptor) :
    faultsAt limit depth at_ (.tuple elements) =
      positionFaultsAt limit (depth + 1) at_ 0 elements :=
  if_neg (Nat.not_lt.mpr h)

theorem faultsAt_union (members : List Descriptor) :
    faultsAt limit depth at_ (.union members) =
      if members.isEmpty then [⟨at_, .emptyUnion⟩]
      else memberFaultsAt limit (depth + 1) at_ members :=
  if_neg (Nat.not_lt.mpr h)

theorem faultsAt_enumeration (e : Enumeration) :
    faultsAt limit depth at_ (.enumeration e) = e.faults at_ :=
  if_neg (Nat.not_lt.mpr h)

end

end Descriptor

def Shape.faults (limit : Nat) (at_ : Location) (s : Shape) : List Rejection :=
  Descriptor.fieldFaultsAt limit 0 at_ s.fields [] s.fields

namespace Entity

def misfit (isArray : Bool) (found : Descriptor) : Rejection :=
  ⟨rootLocation isArray,
    if isArray then .unsupportedElement found.label else .unsupportedRoot found.label⟩

mutual

/-- The faults of a target whose unions are counted from `layer`; its objects are not looked
into. -/
def targetFaultsAt (limit layer : Nat) (isArray : Bool) : Descriptor → List Rejection
  | .object _ => []
  | .union members =>
    if limit < layer then [⟨rootLocation isArray, .depthExceeded limit⟩]
    else memberFaultsAt limit (layer + 1) isArray members
  | d => [misfit isArray d]

def memberFaultsAt (limit layer : Nat) (isArray : Bool) : List Descriptor → List Rejection
  | [] => []
  | d :: ds => targetFaultsAt limit layer isArray d ++ memberFaultsAt limit layer isArray ds

end

/-- The faults of a target up to its objects: those of its unions and members, or else that it has
no object. -/
def targetFaults (limit : Nat) (isArray : Bool) (target : Descriptor) : List Rejection :=
  match targetFaultsAt limit 1 isArray target with
  | [] => if (shapes target).isEmpty then [misfit isArray target] else []
  | faults => faults

def variantFaults (limit : Nat) (s : Shape) : List Rejection :=
  s.faults limit ⟨s.name.getD rootName, []⟩

/-- The faults of a root. Objects are looked into only where the target has no fault. -/
def faults (limit : Nat) (root : Descriptor) : List Rejection :=
  match targetFaults limit (target root).1 (target root).2 with
  | [] => (shapes (target root).2).flatMap (variantFaults limit)
  | faults => faults

end Entity

end TypeSchema
