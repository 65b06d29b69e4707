import TypeSchema.Proofs.NullPolicies
import TypeSchema.Proofs.Rewriting

/-!
An entity beside the descriptor that it is of. There is a variant for each object of the target, and
a property for each field, in their order; below a field, every list of alternatives shows the type
that was declared there. No list is empty and no name is there twice, so no field is lost.
-/
namespace TypeSchema

namespace Descriptor

mutual

/-- The alternatives show the descriptor. A list has something in it wherever it is the whole of a
field, an element or a position; the members of a union share one list. -/
inductive ShownBy : Descriptor → List Alternative → Prop where
  | primitive (kind : Primitive) : ShownBy (.primitive kind) [.value kind]
  | literal (c : Constant) : ShownBy (.literal c) [c.alternative]
  | null : ShownBy .null [.null]
  | wildcard : ShownBy .wildcard [.any]
  | object {s : Shape} {properties : Properties} : (s.fields.map (·.name)).Nodup →
    FieldsShownBy s.fields properties → ShownBy (.object s) [.object properties]
  | array {element : Descriptor} {items : List Alternative} : items ≠ [] → ShownBy element items →
    ShownBy (.array element) [.array items]
  | tuple {elements : List Descriptor} {positions : List (List Alternative)} :
    PositionsShownBy elements positions → ShownBy (.tuple elements) [.tuple positions]
  | union {members : List Descriptor} {as : List Alternative} : MembersShownBy members as →
    ShownBy (.union members) as
  | enumeration (e : Enumeration) :
    ShownBy (.enumeration e) ((Member.scalars 0 e.members).map .literal)

inductive MembersShownBy : List Descriptor → List Alternative → Prop where
  | nil : MembersShownBy [] []
  | cons {d : Descriptor} {ds : List Descriptor} {first rest : List Alternative} :
    ShownBy d first → MembersShownBy ds rest → MembersShownBy (d :: ds) (first ++ rest)

inductive PositionsShownBy : List Descriptor → List (List Alternative) → Prop where
  | nil : PositionsShownBy [] []
  | cons {d : Descriptor} {ds : List Descriptor} {as : List Alternative}
    {rest : List (List Alternative)} : as ≠ [] → ShownBy d as → PositionsShownBy ds rest →
    PositionsShownBy (d :: ds) (as :: rest)

inductive FieldsShownBy : List Field → Properties → Prop where
  | nil : FieldsShownBy [] []
  | cons {name : String} {optional : Bool} {d : Descriptor} {fields : List Field}
    {as : List Alternative} {rest : Properties} : as ≠ [] → ShownBy d as →
    FieldsShownBy fields rest →
    FieldsShownBy (⟨name, optional, [d]⟩ :: fields) ((name, ⟨optional, as⟩) :: rest)

end

theorem FieldsShownBy.keys_eq {fields : List Field} {properties : Properties}
    (h : FieldsShownBy fields properties) : Keyed.keys properties = fields.map (·.name) := by
  match h with
  | .nil => rfl
  | .cons _ _ hrest => exact congrArg (_ :: ·) hrest.keys_eq

theorem FieldsShownBy.optional_eq {fields : List Field} {properties : Properties}
    (h : FieldsShownBy fields properties) :
    properties.map (·.2.optional) = fields.map (·.optional) := by
  match h with
  | .nil => rfl
  | .cons _ _ hrest => exact congrArg (_ :: ·) hrest.optional_eq

/-! ### What a descriptor lists shows it -/

theorem membersShownBy_listings {ds : List Descriptor} (h : ∀ d ∈ ds, d.ShownBy d.listing) :
    MembersShownBy ds (memberListings ds) := by
  induction ds with
  | nil => exact .nil
  | cons d ds ih =>
    rw [List.forall_mem_cons] at h
    exact .cons h.1 (ih h.2)

theorem positionsShownBy_listings {ds : List Descriptor} (hne : ∀ d ∈ ds, d.listing ≠ [])
    (h : ∀ d ∈ ds, d.ShownBy d.listing) : PositionsShownBy ds (positionListings ds) := by
  induction ds with
  | nil => exact .nil
  | cons d ds ih =>
    rw [List.forall_mem_cons] at hne h
    exact .cons hne.1 h.1 (ih hne.2 h.2)

theorem fieldsShownBy_listings {fields : List Field}
    (hsingle : ∀ f ∈ fields, ∃ d, f.declarations = [d])
    (hne : ∀ f ∈ fields, ∀ d ∈ f.declarations, d.listing ≠ [])
    (h : ∀ f ∈ fields, ∀ d ∈ f.declarations, d.ShownBy d.listing) :
    FieldsShownBy fields (fieldListings fields) := by
  induction fields with
  | nil => exact .nil
  | cons f fields ih =>
    obtain ⟨name, optional, declarations⟩ := f
    rw [List.forall_mem_cons] at hsingle hne h
    obtain ⟨⟨d, rfl⟩, hsingle⟩ := hsingle
    rw [fieldListings_single]
    exact .cons (hne.1 d (by simp)) (h.1 d (by simp)) (ih hsingle hne.2 h.2)

theorem Clean.shownBy {limit depth : Nat} {d : Descriptor} (h : d.Clean limit depth) :
    d.ShownBy d.listing := by
  induction d generalizing depth with
  | object name fields ih =>
    obtain ⟨-, hsound, hparts⟩ := clean_iff.mp h
    have hclean (f : Field) (hf : f ∈ fields) (d : Descriptor) (hd : d ∈ f.declarations) :
        d.Clean limit (depth + 1) := hparts d (List.mem_flatMap.mpr ⟨f, hf, hd⟩)
    exact .object hsound.nodup (fieldsShownBy_listings hsound.single
      (fun f hf d hd => (hclean f hf d hd).listing_ne_nil)
      fun f hf d hd => ih f hf d hd (hclean f hf d hd))
  | array element ih =>
    have hclean := (clean_iff.mp h).2.2 element (by simp [parts])
    exact .array hclean.listing_ne_nil (ih hclean)
  | tuple elements ih =>
    have hparts := (clean_iff.mp h).2.2
    exact .tuple (positionsShownBy_listings (fun d hd => (hparts d hd).listing_ne_nil)
      fun d hd => ih d hd (hparts d hd))
  | union members ih =>
    have hparts := (clean_iff.mp h).2.2
    exact .union (membersShownBy_listings fun d hd => ih d hd (hparts d hd))
  | primitive kind => exact .primitive kind
  | literal value => exact .literal value
  | null => exact .null
  | wildcard => exact .wildcard
  | enumeration e => exact .enumeration e
  | unsupported spelling => exact absurd (clean_iff.mp h).2.1 (by simp [Sound])

end Descriptor

/-! ### Lists inside well-formed alternatives -/

namespace Alternative

theorem WellFormed.lists {a : Alternative} (h : a.WellFormed) {as : List Alternative}
    (has : as ∈ a.lists) : as ≠ [] ∧ ∀ b ∈ as, b.WellFormed := by
  cases h with
  | object _ hne hwell =>
    obtain ⟨p, hp, rfl⟩ := List.mem_map.mp has
    exact ⟨hne p hp, hwell p hp⟩
  | array hne hwell =>
    obtain rfl := List.mem_singleton.mp has
    exact ⟨hne, hwell⟩
  | tuple hne hwell => exact ⟨hne as has, hwell as has⟩
  | _ => simp [Alternative.lists] at has

theorem WellFormed.nodup {properties : Properties} (h : WellFormed (.object properties)) :
    (Keyed.keys properties).Nodup := by
  cases h with
  | object hnodup _ _ => exact hnodup

theorem Within.wellFormed {as bs : List Alternative} (h : Within as bs) (hne : bs ≠ [])
    (hwell : ∀ b ∈ bs, b.WellFormed) : as ≠ [] ∧ ∀ a ∈ as, a.WellFormed := by
  induction h with
  | refl => exact ⟨hne, hwell⟩
  | step ha hbs _ ih =>
    obtain ⟨hne, hwell⟩ := (hwell _ ha).lists hbs
    exact ih hne hwell

end Alternative

namespace Entity

open Descriptor

theorem wellFormed_variant {limit : Nat} {s : Shape} (h : (Descriptor.object s).Clean limit 0) :
    (Alternative.object (variant s).properties).WellFormed := by
  obtain ⟨name, fields⟩ := s
  exact h.wellFormed _ (List.mem_singleton_self _)

structure VariantOf (s : Shape) (v : Variant) : Prop where
  name : v.name = s.name
  keys : Keyed.keys v.properties = s.fields.map (·.name)
  optional : v.properties.map (·.2.optional) = s.fields.map (·.optional)
  nodup : (Keyed.keys v.properties).Nodup
  fields : FieldsShownBy s.fields v.properties

theorem variantOf_variant {limit : Nat} {s : Shape} (h : (Descriptor.object s).Clean limit 0) :
    VariantOf s (variant s) := by
  obtain ⟨name, fields⟩ := s
  have hshown := h.shownBy
  rw [Descriptor.listing] at hshown
  cases hshown with
  | object hnodup hfields =>
    exact ⟨rfl, hfields.keys_eq, hfields.optional_eq, hfields.keys_eq ▸ hnodup, hfields⟩

/-- An entity that shows a root, nothing added and nothing lost. -/
structure Shows (root : Descriptor) (e : Entity) : Prop where
  isArray : e.isArray = true ↔ ∃ element, root = .array element ∨ root = .tuple [element]
  name_object : ∀ s, (target root).2 = .object s → e.name = s.name
  name_union : ∀ members, (target root).2 = .union members → e.name = none
  inhabited : e.variants ≠ []
  variants : List.Forall₂ VariantOf (shapes (target root).2) e.variants
  lists : ∀ as, e.Lists as → as ≠ []
  names : ∀ as, e.Lists as → ∀ properties, .object properties ∈ as →
    (Keyed.keys properties).Nodup

theorem target_fst_iff (root : Descriptor) :
    (target root).1 = true ↔ ∃ element, root = .array element ∨ root = .tuple [element] := by
  unfold target
  split
  next element => simp
  next element => simp
  next harray htuple =>
    simp only [Bool.false_eq_true, false_iff, not_exists, not_or]
    exact fun element => ⟨harray element, htuple element⟩

/-- A list of alternatives that stands in an entity has something in it, all of it well-formed. -/
theorem wellFormed_of_lists {limit : Nat} {root : Descriptor} {e : Entity}
    (h : ofDescriptor limit root = .ok e) {as : List Alternative} (has : e.Lists as) :
    as ≠ [] ∧ ∀ a ∈ as, a.WellFormed := by
  obtain ⟨⟨-, hclean⟩, -, rfl⟩ := ofDescriptor_eq_ok_iff_fits.mp h
  obtain ⟨v, hv, p, hp, hwithin⟩ := has
  obtain ⟨s, hs, rfl⟩ := List.mem_map.mp hv
  obtain ⟨hne, hwell⟩ := (wellFormed_variant (hclean s hs)).lists (List.mem_map_of_mem hp)
  exact hwithin.wellFormed hne hwell

/-- The entity of a root shows the root. -/
theorem ofDescriptor_shows {limit : Nat} {root : Descriptor} {e : Entity}
    (h : ofDescriptor limit root = .ok e) : Shows root e := by
  have hlists (as : List Alternative) (has : e.Lists as) := wellFormed_of_lists h has
  obtain ⟨⟨-, hclean⟩, hne, rfl⟩ := ofDescriptor_eq_ok_iff_fits.mp h
  refine ⟨target_fst_iff root, fun s hs => ?_, fun members hm => ?_, hne, ?_,
    fun as has => (hlists as has).1, fun as has ps hps => ((hlists as has).2 _ hps).nodup⟩
  · rw [listing, hs]
    rfl
  · rw [listing, hm]
    rfl
  · exact List.forall₂_map_right_iff.mpr
      (List.forall₂_same.mpr fun s hs => variantOf_variant (hclean s hs))

/-- Lines and points, in a tuple of one position that is opened; the points of a line stand beside
null in an array. -/
theorem ofDescriptor_shows_lines :
    let point : Shape :=
      ⟨some "Point", [⟨"x", false, [.primitive .number]⟩, ⟨"label", true, [.wildcard]⟩]⟩
    let line : Shape := ⟨some "Line", [⟨"ends", false, [.array (.union [.null, .object point])]⟩]⟩
    let properties : Properties := [("x", ⟨false, [.value .number]⟩), ("label", ⟨true, [.any]⟩)]
    let e : Entity := ⟨none, true, [
      ⟨some "Line", [("ends", ⟨false, [.array [.null, .object properties]]⟩)]⟩,
      ⟨some "Point", properties⟩]⟩
    ofDescriptor 3 (.tuple [.union [.object line, .union [.object point]]]) = .ok e ∧
      Shows (.tuple [.union [.object line, .union [.object point]]]) e := by
  intro point line properties e
  have h : ofDescriptor 3 (.tuple [.union [.object line, .union [.object point]]]) = .ok e := rfl
  exact ⟨h, ofDescriptor_shows h⟩

end Entity

end TypeSchema
