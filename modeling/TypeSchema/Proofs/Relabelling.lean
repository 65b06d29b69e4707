import Mathlib.Data.List.Basic
import TypeSchema.Proofs.FirstFault

/-!
Other names for the same types. Names of fields may change to others as long as different ones stay
different, and the names of objects, enumerations and members in any way. The alternatives, the
faults and the schema of a relabelled descriptor are those of the descriptor, relabelled.
-/
namespace TypeSchema

/-- What becomes of each name; what is not given stays. -/
structure Relabelling where
  field : String → String := id
  object : Option String → Option String := id
  enumeration : Option String → Option String := id
  member : String → String := id

/-! ### What is relabelled -/

section
variable (ρ : Relabelling)

def Member.relabel (m : Member) : Member := { m with name := ρ.member m.name }

def Enumeration.relabel (e : Enumeration) : Enumeration :=
  ⟨ρ.enumeration e.name, e.members.map (Member.relabel ρ)⟩

namespace Descriptor

mutual

def relabel : Descriptor → Descriptor
  | .object ⟨name, fields⟩ => .object ⟨ρ.object name, relabelFields fields⟩
  | .array element => .array (relabel element)
  | .tuple elements => .tuple (relabelAll elements)
  | .union members => .union (relabelAll members)
  | .enumeration e => .enumeration (e.relabel ρ)
  | d => d

def relabelAll : List Descriptor → List Descriptor
  | [] => []
  | d :: ds => relabel d :: relabelAll ds

def relabelFields : List Field → List Field
  | [] => []
  | ⟨name, optional, declarations⟩ :: fields =>
    ⟨ρ.field name, optional, relabelAll declarations⟩ :: relabelFields fields

end

theorem relabelAll_eq_map (ds : List Descriptor) : relabelAll ρ ds = ds.map (relabel ρ) := by
  induction ds with
  | nil => rfl
  | cons d ds ih => simp [relabelAll, ih]

end Descriptor

def Field.relabel (f : Field) : Field :=
  ⟨ρ.field f.name, f.optional, f.declarations.map (Descriptor.relabel ρ)⟩

def Shape.relabel (s : Shape) : Shape := ⟨ρ.object s.name, s.fields.map (Field.relabel ρ)⟩

theorem Descriptor.relabelFields_eq_map (fields : List Field) :
    relabelFields ρ fields = fields.map (Field.relabel ρ) := by
  induction fields with
  | nil => rfl
  | cons f fields ih =>
    obtain ⟨name, optional, declarations⟩ := f
    simp [relabelFields, ih, relabelAll_eq_map, Field.relabel]

namespace Descriptor

theorem relabel_object (s : Shape) : (object s).relabel ρ = object (s.relabel ρ) := by
  obtain ⟨name, fields⟩ := s
  rw [relabel, relabelFields_eq_map, Shape.relabel]

theorem relabel_tuple (elements : List Descriptor) :
    (tuple elements).relabel ρ = tuple (elements.map (relabel ρ)) := by
  rw [relabel, relabelAll_eq_map]

theorem relabel_union (members : List Descriptor) :
    (union members).relabel ρ = union (members.map (relabel ρ)) := by
  rw [relabel, relabelAll_eq_map]

theorem label_relabel (d : Descriptor) : (d.relabel ρ).label = d.label := by
  cases d with
  | object s => cases s; rfl
  | _ => rfl

/-- Nothing changes where every name stays. -/
theorem relabel_id (d : Descriptor) : d.relabel {} = d := by
  induction d with
  | object name fields ih =>
    have hfields (f : Field) (hf : f ∈ fields) : f.relabel {} = f := by
      have hdeclarations : f.declarations.map (relabel {}) = f.declarations := by
        rw [List.map_congr_left (ih f hf), List.map_id']
      obtain ⟨name, optional, declarations⟩ := f
      exact congrArg (Field.mk name optional) hdeclarations
    rw [relabel_object, Shape.relabel, List.map_congr_left hfields, List.map_id']
    rfl
  | array element ih => rw [relabel, ih]
  | tuple elements ih => rw [relabel_tuple, List.map_congr_left ih, List.map_id']
  | union members ih => rw [relabel_union, List.map_congr_left ih, List.map_id']
  | enumeration e =>
    have hmembers : e.members.map (Member.relabel {}) = e.members := List.map_id _
    rw [relabel, Enumeration.relabel, hmembers]
    rfl
  | _ => rfl

end Descriptor

end

theorem Shape.relabel_id (s : Shape) : s.relabel {} = s := by
  have h := Descriptor.relabel_id (.object s)
  rw [Descriptor.relabel_object] at h
  exact Descriptor.object.inj h

section
variable (r : String → String)

def Segment.rename : Segment → Segment
  | .field name => .field (r name)
  | s => s

namespace Alternative

mutual

/-- Other names for the properties, wherever they are. -/
def rename : Alternative → Alternative
  | .object properties => .object (renameProperties properties)
  | .array items => .array (renameAll items)
  | .tuple positions => .tuple (renamePositions positions)
  | a => a

def renameAll : List Alternative → List Alternative
  | [] => []
  | a :: rest => rename a :: renameAll rest

def renamePositions : List (List Alternative) → List (List Alternative)
  | [] => []
  | as :: rest => renameAll as :: renamePositions rest

def renameProperties : List (String × Property) → List (String × Property)
  | [] => []
  | (name, ⟨optional, alternatives⟩) :: rest =>
    (r name, ⟨optional, renameAll alternatives⟩) :: renameProperties rest

end

theorem renameAll_eq_map (as : List Alternative) : renameAll r as = as.map (rename r) := by
  induction as with
  | nil => rfl
  | cons a as ih => simp [renameAll, ih]

theorem renamePositions_eq_map (positions : List (List Alternative)) :
    renamePositions r positions = positions.map (List.map (rename r)) := by
  induction positions with
  | nil => rfl
  | cons as rest ih => simp [renamePositions, ih, renameAll_eq_map]

end Alternative

def Property.rename (p : Property) : Property :=
  ⟨p.optional, p.alternatives.map (Alternative.rename r)⟩

def Properties.rename (properties : Properties) : Properties :=
  properties.map fun p => (r p.1, p.2.rename r)

namespace Alternative

theorem renameProperties_eq (properties : Properties) :
    renameProperties r properties = properties.rename r := by
  induction properties with
  | nil => rfl
  | cons p rest ih =>
    obtain ⟨name, ⟨optional, alternatives⟩⟩ := p
    rw [renameProperties, ih, renameAll_eq_map]
    rfl

theorem rename_object (properties : Properties) :
    rename r (.object properties) = .object (properties.rename r) := by
  rw [rename, renameProperties_eq]

theorem rename_array (items : List Alternative) :
    rename r (.array items) = .array (items.map (rename r)) := by
  rw [rename, renameAll_eq_map]

theorem rename_tuple (positions : List (List Alternative)) :
    rename r (.tuple positions) = .tuple (positions.map (List.map (rename r))) := by
  rw [rename, renamePositions_eq_map]

theorem map_rename_literal (ss : List Scalar) :
    (ss.map literal).map (rename r) = ss.map literal := by
  rw [List.map_map]
  rfl

end Alternative

end

/-! ### Alternatives -/

section
variable (ρ : Relabelling)

theorem Member.scalars_relabel (ordinal : Nat) (ms : List Member) :
    scalars ordinal (ms.map (relabel ρ)) = scalars ordinal ms := by
  induction ms generalizing ordinal with
  | nil => rfl
  | cons m ms ih => exact congrArg ((m.scalar? ordinal).toList ++ ·) (ih (ordinal + 1))

theorem Field.property_relabel {f : Field}
    (h : ∀ d ∈ f.declarations, (d.relabel ρ).listing = d.listing.map (Alternative.rename ρ.field)) :
    (f.relabel ρ).property = f.property.rename ρ.field := by
  have hlistings : (f.declarations.map (Descriptor.relabel ρ)).flatMap Descriptor.listing =
      (f.declarations.flatMap Descriptor.listing).map (Alternative.rename ρ.field) := by
    rw [List.flatMap_map, List.map_flatMap]
    exact List.flatMap_congr h
  rw [property, property, relabel, Property.rename, hlistings]

namespace Descriptor

theorem fieldListings_relabel {fields : List Field}
    (h : ∀ f ∈ fields, ∀ d ∈ f.declarations,
      (d.relabel ρ).listing = d.listing.map (Alternative.rename ρ.field)) :
    fieldListings (fields.map (Field.relabel ρ)) = (fieldListings fields).rename ρ.field := by
  rw [fieldListings_eq_map, fieldListings_eq_map, Properties.rename, List.map_map, List.map_map]
  exact List.map_congr_left fun f hf => congrArg (ρ.field f.name, ·) (f.property_relabel ρ (h f hf))

/-- A relabelled descriptor lists the same under other names. -/
theorem listing_relabel (d : Descriptor) :
    (d.relabel ρ).listing = d.listing.map (Alternative.rename ρ.field) := by
  induction d with
  | object name fields ih =>
    rw [relabel_object, Shape.relabel, listing, listing, fieldListings_relabel ρ ih,
      List.map_singleton, Alternative.rename_object]
  | array element ih =>
    rw [relabel, listing, listing, ih, List.map_singleton, Alternative.rename_array]
  | tuple elements ih =>
    have hpositions : elements.map (listing ∘ relabel ρ) =
        elements.map (List.map (Alternative.rename ρ.field) ∘ listing) := List.map_congr_left ih
    rw [relabel_tuple, listing, listing, positionListings_eq_map, positionListings_eq_map,
      List.map_singleton, Alternative.rename_tuple, List.map_map, List.map_map, hpositions]
  | union members ih =>
    rw [relabel_union, listing, listing, memberListings_eq_flatMap, memberListings_eq_flatMap,
      List.flatMap_map, List.map_flatMap]
    exact List.flatMap_congr ih
  | enumeration e =>
    rw [relabel, listing, listing, Enumeration.relabel, Member.scalars_relabel,
      Alternative.map_rename_literal]
  | literal value => cases value <;> rfl
  | _ => rfl

end Descriptor

end

/-! ### Faults -/

section
variable (root : String → String) (ρ : Relabelling)

/-- The way to the same part of a relabelled type, in a whole of another name. -/
def Location.relabel (l : Location) : Location :=
  ⟨root l.root, l.segments.map (Segment.rename ρ.field)⟩

def Rejection.Cause.relabel : Rejection.Cause → Rejection.Cause
  | .unknownInitializer member initializer => .unknownInitializer (ρ.member member) initializer
  | cause => cause

theorem Rejection.Cause.relabel_of_member {ρ : Relabelling} (h : ρ.member = id)
    (cause : Rejection.Cause) : cause.relabel ρ = cause := by
  cases cause <;> simp [relabel, h]

def Rejection.relabel (e : Rejection) : Rejection := ⟨e.location.relabel root ρ, e.cause.relabel ρ⟩

theorem Location.relabel_field (l : Location) (name : String) :
    (l.field name).relabel root ρ = (l.relabel root ρ).field (ρ.field name) := by
  simp [relabel, field, Segment.rename]

theorem Location.relabel_element (l : Location) :
    l.element.relabel root ρ = (l.relabel root ρ).element := by
  simp [relabel, element, Segment.rename]

theorem Location.relabel_position (l : Location) (i : Nat) :
    (l.position i).relabel root ρ = (l.relabel root ρ).position i := by
  simp [relabel, position, Segment.rename]

theorem Member.fault?_relabel (at_ : Location) (m : Member) :
    (m.relabel ρ).fault? (at_.relabel root ρ) = (m.fault? at_).map (Rejection.relabel root ρ) := by
  unfold fault? relabel
  cases m.initializer with
  | none => rfl
  | some v =>
    by_cases hv : v.isScalar = true
    · simp [hv]
    · simp [hv, Rejection.relabel, Rejection.Cause.relabel]

theorem Enumeration.faults_relabel (at_ : Location) (e : Enumeration) :
    (e.relabel ρ).faults (at_.relabel root ρ) = (e.faults at_).map (Rejection.relabel root ρ) := by
  unfold faults relabel
  by_cases hm : e.members = []
  · simp [hm, Rejection.relabel, Rejection.Cause.relabel]
  · simp [hm, List.filterMap_map, List.map_filterMap, Member.fault?_relabel]

end

namespace Descriptor

section
variable {root : String → String} {ρ : Relabelling} {limit depth : Nat}

theorem memberFaultsAt_relabel (at_ : Location) {ds : List Descriptor}
    (h : ∀ d ∈ ds, ∀ at_ : Location, faultsAt limit depth (at_.relabel root ρ) (d.relabel ρ) =
      (faultsAt limit depth at_ d).map (Rejection.relabel root ρ)) :
    memberFaultsAt limit depth (at_.relabel root ρ) (ds.map (relabel ρ)) =
      (memberFaultsAt limit depth at_ ds).map (Rejection.relabel root ρ) := by
  induction ds with
  | nil => rfl
  | cons d ds ih =>
    rw [List.forall_mem_cons] at h
    rw [List.map_cons, memberFaultsAt, memberFaultsAt, List.map_append, h.1, ih h.2]

theorem positionFaultsAt_relabel (at_ : Location) {ds : List Descriptor}
    (h : ∀ d ∈ ds, ∀ at_ : Location, faultsAt limit depth (at_.relabel root ρ) (d.relabel ρ) =
      (faultsAt limit depth at_ d).map (Rejection.relabel root ρ)) (i : Nat) :
    positionFaultsAt limit depth (at_.relabel root ρ) i (ds.map (relabel ρ)) =
      (positionFaultsAt limit depth at_ i ds).map (Rejection.relabel root ρ) := by
  induction ds generalizing i with
  | nil => rfl
  | cons d ds ih =>
    rw [List.forall_mem_cons] at h
    rw [List.map_cons, positionFaultsAt, positionFaultsAt, List.map_append, ← h.1, ih h.2,
      Location.relabel_position]

theorem declarationFaultsAt_relabel (at_ : Location) {ds : List Descriptor}
    (h : ∀ d ∈ ds, ∀ at_ : Location, faultsAt limit depth (at_.relabel root ρ) (d.relabel ρ) =
      (faultsAt limit depth at_ d).map (Rejection.relabel root ρ)) :
    declarationFaultsAt limit depth (at_.relabel root ρ) (ds.map (relabel ρ)) =
      (declarationFaultsAt limit depth at_ ds).map (Rejection.relabel root ρ) := by
  match ds, h with
  | [], _ => rfl
  | [d], h => exact h d (by simp) at_
  | d :: e :: more, _ =>
    simp [declarationFaultsAt, Rejection.relabel, Rejection.Cause.relabel]

/-- As many fields have a name as had the one that it was. -/
theorem countNamed_relabel (hρ : Function.Injective ρ.field) (name : String) (fields : List Field) :
    countNamed (ρ.field name) (fields.map (Field.relabel ρ)) = countNamed name fields := by
  have hname (f : Field) : ((f.relabel ρ).name == ρ.field name) = (f.name == name) := hρ.beq_eq
  rw [countNamed, countNamed, List.filter_map, List.length_map]
  exact congrArg (fun p => (fields.filter p).length) (funext hname)

theorem contains_relabel (hρ : Function.Injective ρ.field) (name : String) (seen : List String) :
    (seen.map ρ.field).contains (ρ.field name) = seen.contains name := by
  rw [Bool.eq_iff_iff, List.contains_iff_mem, List.contains_iff_mem, List.mem_map_of_injective hρ]

theorem fieldFaultsAt_relabel (hρ : Function.Injective ρ.field) (at_ : Location) (all : List Field)
    {fields : List Field} (h : ∀ f ∈ fields, ∀ d ∈ f.declarations, ∀ at_ : Location,
      faultsAt limit depth (at_.relabel root ρ) (d.relabel ρ) =
        (faultsAt limit depth at_ d).map (Rejection.relabel root ρ)) (seen : List String) :
    fieldFaultsAt limit depth (at_.relabel root ρ) (all.map (Field.relabel ρ))
        (seen.map ρ.field) (fields.map (Field.relabel ρ)) =
      (fieldFaultsAt limit depth at_ all seen fields).map (Rejection.relabel root ρ) := by
  induction fields generalizing seen with
  | nil => rfl
  | cons f fields ih =>
    obtain ⟨name, optional, declarations⟩ := f
    rw [List.forall_mem_cons] at h
    -- the names seen are relabelled too, so a second field is found where it was
    have hrest := ih h.2 (name :: seen)
    have hhead := declarationFaultsAt_relabel (at_.field name) h.1
    rw [List.map_cons] at hrest
    rw [List.map_cons, Field.relabel, fieldFaultsAt, fieldFaultsAt, List.map_append, hrest,
      contains_relabel hρ, countNamed_relabel hρ, ← Location.relabel_field, hhead]
    cases seen.contains name <;> rfl

theorem faultsAt_relabel_of_le {at_ : Location} {d : Descriptor}
    (h : depth ≤ limit → faultsAt limit depth (at_.relabel root ρ) (d.relabel ρ) =
      (faultsAt limit depth at_ d).map (Rejection.relabel root ρ)) :
    faultsAt limit depth (at_.relabel root ρ) (d.relabel ρ) =
      (faultsAt limit depth at_ d).map (Rejection.relabel root ρ) := by
  rcases Nat.lt_or_ge limit depth with hlt | hle
  · rw [faultsAt_of_lt _ _ hlt, faultsAt_of_lt _ _ hlt]
    rfl
  · exact h hle

end

/-- The faults of a relabelled descriptor are its faults, at the same places under other names. -/
theorem faultsAt_relabel {ρ : Relabelling} (hρ : Function.Injective ρ.field)
    (root : String → String) (limit depth : Nat) (at_ : Location) (d : Descriptor) :
    faultsAt limit depth (at_.relabel root ρ) (d.relabel ρ) =
      (faultsAt limit depth at_ d).map (Rejection.relabel root ρ) := by
  induction d generalizing depth at_ with
  | object name fields ih =>
    refine faultsAt_relabel_of_le fun hle => ?_
    rw [relabel_object, faultsAt_object hle, faultsAt_object hle]
    exact fieldFaultsAt_relabel hρ at_ fields (fun f hf d hd at_ => ih f hf d hd (depth + 1) at_) []
  | array element ih =>
    refine faultsAt_relabel_of_le fun hle => ?_
    rw [relabel, faultsAt_array hle, faultsAt_array hle, ← Location.relabel_element, ih]
  | tuple elements ih =>
    refine faultsAt_relabel_of_le fun hle => ?_
    rw [relabel_tuple, faultsAt_tuple hle, faultsAt_tuple hle]
    exact positionFaultsAt_relabel at_ (fun d hd at_ => ih d hd (depth + 1) at_) 0
  | union members ih =>
    refine faultsAt_relabel_of_le fun hle => ?_
    rw [relabel_union, faultsAt_union hle, faultsAt_union hle, List.isEmpty_map]
    by_cases hm : members.isEmpty = true
    · rw [if_pos hm, if_pos hm]
      rfl
    · rw [if_neg hm, if_neg hm]
      exact memberFaultsAt_relabel at_ fun d hd at_ => ih d hd (depth + 1) at_
  | enumeration e =>
    refine faultsAt_relabel_of_le fun hle => ?_
    rw [relabel, faultsAt_enumeration hle, faultsAt_enumeration hle, Enumeration.faults_relabel]
  | _ =>
    refine faultsAt_relabel_of_le fun hle => ?_
    unfold faultsAt
    rw [if_neg (Nat.not_lt.mpr hle), if_neg (Nat.not_lt.mpr hle)]
    rfl

end Descriptor

/-! ### Roots -/

namespace Entity

open Descriptor

section
variable (ρ : Relabelling)

theorem target_relabel (d : Descriptor) :
    target (d.relabel ρ) = ((target d).1, (target d).2.relabel ρ) := by
  cases d with
  | object s => cases s; rfl
  | tuple elements =>
    rw [relabel_tuple]
    match elements with
    | [] => rfl
    | [_] => rfl
    | _ :: _ :: _ => rw [target, target, relabel_tuple] <;> simp
  | _ => rfl

theorem shapes_relabel (t : Descriptor) :
    shapes (t.relabel ρ) = (shapes t).map (Shape.relabel ρ) := by
  induction t with
  | object name fields _ => rw [relabel_object]; rfl
  | union members ih =>
    rw [relabel_union, shapes, shapes, memberShapes_eq_flatMap, memberShapes_eq_flatMap,
      List.flatMap_map, List.map_flatMap]
    exact List.flatMap_congr ih
  | _ => rfl

end

section
variable {root : String → String} {ρ : Relabelling} {limit : Nat}

theorem rootLocation_relabel (hroot : root rootName = rootName) (isArray : Bool) :
    (rootLocation isArray).relabel root ρ = rootLocation isArray := by
  cases isArray <;> simp [rootLocation, Location.relabel, hroot, Segment.rename]

theorem misfit_relabel (hroot : root rootName = rootName) (isArray : Bool) (found : Descriptor) :
    misfit isArray (found.relabel ρ) = (misfit isArray found).relabel root ρ := by
  rw [misfit, label_relabel, misfit, Rejection.relabel, rootLocation_relabel hroot]
  cases isArray <;> rfl

theorem memberFaultsAt_relabel {layer : Nat} {isArray : Bool} {ds : List Descriptor}
    (h : ∀ d ∈ ds, targetFaultsAt limit layer isArray (d.relabel ρ) =
      (targetFaultsAt limit layer isArray d).map (Rejection.relabel root ρ)) :
    memberFaultsAt limit layer isArray (ds.map (Descriptor.relabel ρ)) =
      (memberFaultsAt limit layer isArray ds).map (Rejection.relabel root ρ) := by
  induction ds with
  | nil => rfl
  | cons d ds ih =>
    rw [List.forall_mem_cons] at h
    rw [List.map_cons, memberFaultsAt, memberFaultsAt, List.map_append, h.1, ih h.2]

theorem targetFaultsAt_relabel (hroot : root rootName = rootName) (layer : Nat) (isArray : Bool)
    (t : Descriptor) : targetFaultsAt limit layer isArray (t.relabel ρ) =
      (targetFaultsAt limit layer isArray t).map (Rejection.relabel root ρ) := by
  induction t generalizing layer with
  | object name fields _ => rw [relabel_object]; rfl
  | union members ih =>
    rw [relabel_union, targetFaultsAt, targetFaultsAt]
    by_cases hlayer : limit < layer
    · rw [if_pos hlayer, if_pos hlayer, List.map_singleton, Rejection.relabel,
        rootLocation_relabel hroot]
      rfl
    · rw [if_neg hlayer, if_neg hlayer]
      exact memberFaultsAt_relabel fun d hd => ih d hd (layer + 1)
  | tuple elements _ => exact congrArg ([·]) (misfit_relabel hroot isArray (.tuple elements))
  | array element _ => exact congrArg ([·]) (misfit_relabel hroot isArray (.array element))
  | _ => exact congrArg ([·]) (misfit_relabel hroot isArray _)

theorem targetFaults_relabel (hroot : root rootName = rootName) (isArray : Bool) (t : Descriptor) :
    targetFaults limit isArray (t.relabel ρ) =
      (targetFaults limit isArray t).map (Rejection.relabel root ρ) := by
  unfold targetFaults
  rw [targetFaultsAt_relabel hroot, shapes_relabel, List.isEmpty_map, misfit_relabel hroot]
  cases targetFaultsAt limit 1 isArray t with
  | nil => cases (shapes t).isEmpty <;> rfl
  | cons r rest => rfl

theorem variantFaults_relabel (hρ : Function.Injective ρ.field) {s : Shape}
    (hs : (ρ.object s.name).getD rootName = root (s.name.getD rootName)) :
    variantFaults limit (s.relabel ρ) =
      (variantFaults limit s).map (Rejection.relabel root ρ) := by
  rw [variantFaults, variantFaults, Shape.relabel, hs]
  exact fieldFaultsAt_relabel hρ ⟨s.name.getD rootName, []⟩ s.fields
    (fun _ _ d _ at_ => d.faultsAt_relabel hρ root limit 0 at_) []

/-- The faults of a relabelled root, where the names of its objects go with the roots of paths. -/
theorem faults_relabel (hρ : Function.Injective ρ.field) (hroot : root rootName = rootName)
    (hobject : ∀ name, (ρ.object name).getD rootName = root (name.getD rootName))
    (d : Descriptor) :
    faults limit (d.relabel ρ) = (faults limit d).map (Rejection.relabel root ρ) := by
  unfold faults
  rw [target_relabel, targetFaults_relabel hroot, shapes_relabel, List.flatMap_map]
  cases targetFaults limit (target d).1 (target d).2 with
  | nil =>
    rw [List.map_nil, List.map_flatMap]
    exact List.flatMap_congr fun s _ => variantFaults_relabel hρ (hobject s.name)
  | cons r rest => rfl

end

end Entity

end TypeSchema
