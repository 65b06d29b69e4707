import TypeSchema.Compile.Entity
import TypeSchema.Proofs.Induction

/-!
What a descriptor lists when nothing is checked: the alternatives of all its parts, wherever they
stand and however deep. A part that cannot be compiled lists nothing, and a field lists all its
declarations together.
-/
namespace TypeSchema

namespace Member

def scalar? (ordinal : Nat) (m : Member) : Option Scalar :=
  match m.initializer with
  | none => some (Scalar.ofNat ordinal)
  | some (.string s) => some (.string s)
  | some (.number n) => some (.number n)
  | some (.bool b) => some (.bool b)
  | some _ => none

/-- The literals of members the first of which has this position. -/
def scalars : Nat → List Member → List Scalar
  | _, [] => []
  | ordinal, m :: ms => (m.scalar? ordinal).toList ++ scalars (ordinal + 1) ms

end Member

namespace Descriptor

mutual

def listing : Descriptor → List Alternative
  | .primitive kind => [.value kind]
  | .literal c => [c.alternative]
  | .null => [.null]
  | .wildcard => [.any]
  | .object ⟨_, fields⟩ => [.object (fieldListings fields)]
  | .array element => [.array (listing element)]
  | .tuple elements => [.tuple (positionListings elements)]
  | .union members => memberListings members
  | .enumeration e => (Member.scalars 0 e.members).map .literal
  | .unsupported _ => []

def memberListings : List Descriptor → List Alternative
  | [] => []
  | d :: ds => listing d ++ memberListings ds

def positionListings : List Descriptor → List (List Alternative)
  | [] => []
  | d :: ds => listing d :: positionListings ds

def fieldListings : List Field → Properties
  | [] => []
  | ⟨name, optional, declarations⟩ :: fields =>
    (name, ⟨optional, memberListings declarations⟩) :: fieldListings fields

end

theorem memberListings_eq_flatMap (ds : List Descriptor) :
    memberListings ds = ds.flatMap listing := by
  induction ds with
  | nil => rfl
  | cons d ds ih => simp [memberListings, ih]

theorem positionListings_eq_map (ds : List Descriptor) : positionListings ds = ds.map listing := by
  induction ds with
  | nil => rfl
  | cons d ds ih => simp [positionListings, ih]

end Descriptor

theorem Descriptor.fieldListings_single (name : String) (optional : Bool) (d : Descriptor)
    (fs : List Field) :
    fieldListings (⟨name, optional, [d]⟩ :: fs) =
      (name, ⟨optional, d.listing⟩) :: fieldListings fs := by
  simp [fieldListings, memberListings]

/-- The property of a field when nothing is checked. -/
def Field.property (f : Field) : Property :=
  ⟨f.optional, f.declarations.flatMap Descriptor.listing⟩

theorem Descriptor.fieldListings_eq_map (fs : List Field) :
    fieldListings fs = fs.map fun f => (f.name, f.property) := by
  induction fs with
  | nil => rfl
  | cons f fs ih =>
    obtain ⟨name, optional, declarations⟩ := f
    simp [fieldListings, ih, Field.property, memberListings_eq_flatMap]

theorem Descriptor.keys_fieldListings (fs : List Field) :
    Keyed.keys (fieldListings fs) = fs.map (·.name) := by
  simp [Keyed.keys, fieldListings_eq_map, Function.comp_def]

namespace Entity

mutual

/-- The objects of a target, its unions opened. -/
def shapes : Descriptor → List Shape
  | .object s => [s]
  | .union members => memberShapes members
  | _ => []

def memberShapes : List Descriptor → List Shape
  | [] => []
  | d :: ds => shapes d ++ memberShapes ds

end

theorem memberShapes_eq_flatMap (ds : List Descriptor) : memberShapes ds = ds.flatMap shapes := by
  induction ds with
  | nil => rfl
  | cons d ds ih => simp [memberShapes, ih]

def variant (s : Shape) : Variant := ⟨s.name, Descriptor.fieldListings s.fields⟩

/-- The entity of a root when nothing is checked. -/
def listing (root : Descriptor) : Entity :=
  ⟨targetName (target root).2, (target root).1, (shapes (target root).2).map variant⟩

end Entity

end TypeSchema
