import TypeSchema.Proofs.Meaning
import TypeSchema.Proofs.Monotone

/-!
What a schema accepts at most where null is left out by policy. A field, an element or a position of
null alone is then without a constraint. Everywhere else the schema accepts nothing but values of
the type, as it does where null is written out.
-/
namespace TypeSchema

section
variable (equal : Json → Json → Bool)

theorem Schema.acceptsPositions_eq_all (ss : List Schema) (vs : List Json) :
    acceptsPositions equal ss vs = (ss.zip vs).all fun p => p.1.accepts equal p.2 := by
  induction ss generalizing vs with
  | nil => simp [acceptsPositions]
  | cons s ss ih => cases vs <;> simp [acceptsPositions, ih]

theorem Descriptor.admitsPositions_eq_all (ds : List Descriptor) (vs : List Json) :
    admitsPositions equal ds vs = (ds.zip vs).all fun p => p.1.admits equal p.2 := by
  induction ds generalizing vs with
  | nil => simp [admitsPositions]
  | cons d ds ih => cases vs <;> simp [admitsPositions, ih]

end

namespace Descriptor

/-! ### Places of null alone -/

mutual

/-- Nothing but null belongs to the descriptor by name: it is null, or a union of nothing else. -/
def onlyNull : Descriptor → Bool
  | .null => true
  | .literal .null => true
  | .union members => onlyNulls members
  | _ => false

def onlyNulls : List Descriptor → Bool
  | [] => true
  | d :: ds => onlyNull d && onlyNulls ds

end

theorem onlyNulls_eq_all (ds : List Descriptor) : onlyNulls ds = ds.all onlyNull := by
  induction ds with
  | nil => rfl
  | cons d ds ih => simp [onlyNulls, ih]

theorem Clean.all_isNull_listing {limit depth : Nat} {d : Descriptor} (h : d.Clean limit depth) :
    d.listing.all Alternative.isNull = d.onlyNull := by
  induction d generalizing depth with
  | union members ih =>
    have hparts := (clean_iff.mp h).2.2
    rw [listing, onlyNull, memberListings_eq_flatMap, List.all_flatMap, onlyNulls_eq_all]
    exact all_congr_of_mem fun d hd => ih d hd (hparts d hd)
  | enumeration e =>
    obtain ⟨a, rest, hlisting⟩ := List.exists_cons_of_ne_nil h.listing_ne_nil
    obtain ⟨s, -, rfl⟩ : ∃ s ∈ Member.scalars 0 e.members, Alternative.literal s = a := by
      rw [← List.mem_map, ← listing, hlisting]
      exact List.mem_cons_self ..
    simp [hlisting, onlyNull, Alternative.isNull]
  | literal value => cases value <;> rfl
  | unsupported spelling => exact absurd (clean_iff.mp h).2.1 (by simp [Sound])
  | _ => rfl

/-- A type in a place of its own, where anything may stand if it is null alone. -/
def orAnything (d relaxed : Descriptor) : Descriptor :=
  if d.onlyNull then .union [d, .wildcard] else relaxed

mutual

/-- The type without the constraint of null on the places inside it that are of null alone: fields,
elements and positions. The members of a union have no places of their own. -/
def relaxed : Descriptor → Descriptor
  | .object ⟨name, fields⟩ => .object ⟨name, relaxedFields fields⟩
  | .array element => .array (element.orAnything (relaxed element))
  | .tuple elements => .tuple (relaxedPlaces elements)
  | .union members => .union (relaxedMembers members)
  | d => d

def relaxedMembers : List Descriptor → List Descriptor
  | [] => []
  | d :: ds => relaxed d :: relaxedMembers ds

def relaxedPlaces : List Descriptor → List Descriptor
  | [] => []
  | d :: ds => d.orAnything (relaxed d) :: relaxedPlaces ds

def relaxedFields : List Field → List Field
  | [] => []
  | ⟨name, optional, declarations⟩ :: fields =>
    ⟨name, optional, relaxedPlaces declarations⟩ :: relaxedFields fields

end

def relaxedPlace (d : Descriptor) : Descriptor := d.orAnything d.relaxed

theorem relaxedMembers_eq_map (ds : List Descriptor) : relaxedMembers ds = ds.map relaxed := by
  induction ds with
  | nil => rfl
  | cons d ds ih => simp [relaxedMembers, ih]

theorem relaxedPlaces_eq_map (ds : List Descriptor) : relaxedPlaces ds = ds.map relaxedPlace := by
  induction ds with
  | nil => rfl
  | cons d ds ih => simp [relaxedPlaces, ih, relaxedPlace]

theorem relaxedFields_eq_map (fields : List Field) :
    relaxedFields fields =
      fields.map fun f => { f with declarations := f.declarations.map relaxedPlace } := by
  induction fields with
  | nil => rfl
  | cons f fields ih =>
    obtain ⟨name, optional, declarations⟩ := f
    simp [relaxedFields, ih, relaxedPlaces_eq_map]

theorem nullable_relaxed (d : Descriptor) : d.relaxed.nullable = d.nullable := by
  induction d with
  | union members ih =>
    rw [relaxed, nullable, nullable, relaxedMembers_eq_map, nullableSome_eq_any,
      nullableSome_eq_any, List.any_map]
    exact any_congr_of_mem ih
  | _ => rfl

theorem nullable_relaxedPlace (d : Descriptor) : d.relaxedPlace.nullable = d.nullable := by
  unfold relaxedPlace orAnything
  split
  · simp [nullable, nullableSome]
  · exact d.nullable_relaxed

end Descriptor

namespace Schema

/-- The values that an alternative accounts for in the schema of a list. -/
inductive Allows (equal : Json → Json → Bool) (policy : NullPolicy) :
    Alternative → Json → Prop where
  | value {kind : Primitive} {v : Json} : kind.holds v = true → Allows equal policy (.value kind) v
  | null {v : Json} : v.isNull = true → Allows equal policy .null v
  | fragment {a : Alternative} {s : Schema} {v : Json} : s ∈ fragment policy a →
    s.accepts equal v = true → Allows equal policy a v

/-- What the schema of a list accepts, one of the alternatives accounts for, unless nothing in the
list puts a constraint on the place. -/
theorem Constrained.exists_allows {equal : Json → Json → Bool} {policy : NullPolicy}
    {as : List Alternative} (has : Constrained policy as) {v : Json}
    (hv : (ofAlternatives policy as).accepts equal v = true) :
    ∃ a ∈ as, Allows equal policy a v := by
  rw [accepts_ofAlternatives_iff equal has.fragments_ne_nil] at hv
  rcases hv with (⟨kind, hkind, hv⟩ | ⟨hnull, hv, -⟩) | ⟨a, ha, s, hs, hv⟩
  · exact ⟨.value kind, hkind, .value hv⟩
  · exact ⟨.null, Alternative.any_isNull_iff.mp hnull, .null hv⟩
  · exact ⟨a, ha, .fragment hs hv⟩

theorem Allows.of_fragment_eq {equal : Json → Json → Bool} {policy other : NullPolicy}
    {a : Alternative} {v : Json} (hv : Allows equal policy a v)
    (h : Schema.fragment policy a = Schema.fragment other a) : Allows equal other a v := by
  cases hv with
  | value hv => exact .value hv
  | null hv => exact .null hv
  | fragment hs hv => exact .fragment (h ▸ hs) hv

end Schema

namespace Descriptor

variable (equal : Json → Json → Bool) {limit depth : Nat} {d : Descriptor}

theorem Clean.admits_of_allows (h : d.Clean limit depth) {a : Alternative} (ha : a ∈ d.listing)
    {v : Json} (hv : Schema.Allows equal .typeNull a v) : d.admits equal v = true := by
  rw [← h.accepts_listing equal v, Schema.accepts_ofAlternatives_iff equal
    (Schema.fragments_ne_nil h.listing_ne_nil)]
  cases hv with
  | value hv => exact .inl (.inl ⟨_, ha, hv⟩)
  | null hv => exact .inl (.inr ⟨Alternative.any_isNull_iff.mpr ha, hv, .inl rfl⟩)
  | fragment hs hv => exact .inr ⟨a, ha, _, hs, hv⟩

theorem Clean.admits_relaxedPlace_of (h : d.Clean limit depth)
    (hd : ∀ a ∈ d.listing, ∀ v, Schema.Allows equal .omit a v → d.relaxed.admits equal v = true)
    {v : Json} (hv : (Schema.ofAlternatives .omit d.listing).accepts equal v = true) :
    d.relaxedPlace.admits equal v = true := by
  unfold relaxedPlace orAnything
  split
  next => simp [admits, admitsSome]
  next hnull =>
    have hconstrained : Schema.Constrained .omit d.listing := by
      refine ⟨h.listing_ne_nil, fun _ => ?_⟩
      rw [← h.all_isNull_listing, Bool.not_eq_true, List.all_eq_false] at hnull
      obtain ⟨a, ha, hnull⟩ := hnull
      exact ⟨a, ha, fun heq => hnull (heq ▸ rfl)⟩
    obtain ⟨a, ha, hallows⟩ := hconstrained.exists_allows hv
    exact hd a ha v hallows

theorem accepts_ofProperties_iff {policy : NullPolicy} {fields : List Field}
    {entries : List (String × Json)} :
    (Schema.ofProperties policy (fieldListings fields)).accepts equal (.object entries) = true ↔
      (∀ f ∈ fields, ∀ e ∈ entries, e.1 = f.name →
        (Schema.ofAlternatives policy f.property.alternatives).accepts equal e.2 = true) ∧
      (∀ key ∈ Keyed.keys entries, ∃ f ∈ fields, f.name = key) ∧
      ∀ f ∈ fields, f.isRequired = true → f.name ∈ Keyed.keys entries := by
  rw [Schema.ofProperties, Schema.accepts, Schema.acceptsProperties_eq_all,
    Schema.keys_propertySchemas, keys_fieldListings, Schema.propertySchemas_eq_map,
    Schema.requiredNames_fieldListings, fieldListings_eq_map]
  simp [and_assoc, imp_iff_not_or]

theorem admits_object_iff {name : Option String} {fields : List Field}
    {entries : List (String × Json)} :
    (object ⟨name, fields⟩).admits equal (.object entries) = true ↔
      (∀ f ∈ fields, ∀ e ∈ entries, e.1 = f.name →
        f.declarations.any (·.admits equal e.2) = true) ∧
      (∀ key ∈ Keyed.keys entries, ∃ f ∈ fields, f.name = key) ∧
      ∀ f ∈ fields, f.isRequired = true → f.name ∈ Keyed.keys entries := by
  rw [admits, admitsFields_eq_all]
  simp [and_assoc, imp_iff_not_or]

theorem isRequired_relaxed (f : Field) :
    Field.isRequired { f with declarations := f.declarations.map relaxedPlace } = f.isRequired := by
  simp [Field.isRequired, Function.comp_def, nullable_relaxedPlace]

/-- An alternative of a clean descriptor accounts only for values of the descriptor in which the
places of null alone are free. -/
theorem Clean.admits_relaxed (h : d.Clean limit depth) {a : Alternative} (ha : a ∈ d.listing)
    {v : Json} (hv : Schema.Allows equal .omit a v) : d.relaxed.admits equal v = true := by
  induction d generalizing depth a v with
  | object name fields ih =>
    obtain ⟨-, hsound, hparts⟩ := clean_iff.mp h
    obtain rfl : a = .object (fieldListings fields) := by simpa [listing] using ha
    cases hv with
    | fragment hs hv =>
      obtain rfl := List.mem_singleton.mp (Schema.fragment_object .omit _ ▸ hs)
      cases v with
      | object entries =>
        obtain ⟨hvalues, hkeys, hrequired⟩ := (accepts_ofProperties_iff equal).mp hv
        rw [relaxed, relaxedFields_eq_map, admits_object_iff]
        refine ⟨List.forall_mem_map.mpr fun f hf e he hname => ?_, fun key hkey => ?_,
          List.forall_mem_map.mpr fun f hf hrequires => ?_⟩
        · obtain ⟨d, hd⟩ := hsound.single f hf
          have hclean := hparts d (List.mem_flatMap.mpr ⟨f, hf, by simp [hd]⟩)
          have hvalue := hvalues f hf e he hname
          simp only [Field.property, hd, List.flatMap_singleton] at hvalue
          simpa [hd] using hclean.admits_relaxedPlace_of equal
            (fun a ha v hv => ih f hf d (by simp [hd]) hclean ha hv) hvalue
        · obtain ⟨f, hf, hname⟩ := hkeys key hkey
          exact ⟨_, List.mem_map_of_mem hf, hname⟩
        · exact hrequired f hf (isRequired_relaxed f ▸ hrequires)
      | _ => simp [Schema.ofProperties, Schema.accepts] at hv
  | array element ih =>
    have hclean := (clean_iff.mp h).2.2 element (by simp [parts])
    obtain rfl : a = .array element.listing := by simpa [listing] using ha
    cases hv with
    | fragment hs hv =>
      obtain rfl := List.mem_singleton.mp (Schema.fragment_array .omit _ ▸ hs)
      cases v with
      | array vs =>
        rw [Schema.accepts, List.all_eq_true] at hv
        rw [relaxed, admits, List.all_eq_true]
        exact fun w hw => hclean.admits_relaxedPlace_of equal
          (fun a ha v hv => ih hclean ha hv) (hv w hw)
      | _ => simp [Schema.accepts] at hv
  | tuple elements ih =>
    have hparts := (clean_iff.mp h).2.2
    obtain rfl : a = .tuple (elements.map listing) := by
      simpa [listing, positionListings_eq_map] using ha
    cases hv with
    | fragment hs hv =>
      obtain rfl := List.mem_singleton.mp (Schema.fragment_tuple .omit _ ▸ hs)
      cases v with
      | array vs =>
        rw [Schema.accepts, Schema.acceptsPositions_eq_all, List.map_map, List.zip_map_left,
          List.all_map, List.all_eq_true] at hv
        rw [relaxed, relaxedPlaces_eq_map, admits, admitsPositions_eq_all, List.zip_map_left,
          List.all_map, List.all_eq_true]
        intro p hp
        have hd := (List.of_mem_zip hp).1
        exact (hparts p.1 hd).admits_relaxedPlace_of equal
          (fun a ha v hv => ih p.1 hd (hparts p.1 hd) ha hv) (hv p hp)
      | _ => simp [Schema.accepts] at hv
  | union members ih =>
    have hparts := (clean_iff.mp h).2.2
    rw [listing, memberListings_eq_flatMap] at ha
    obtain ⟨d, hd, ha⟩ := List.mem_flatMap.mp ha
    rw [relaxed, relaxedMembers_eq_map, admits, admitsSome_eq_any, List.any_map, List.any_eq_true]
    exact ⟨d, hd, ih d hd (hparts d hd) ha hv⟩
  | enumeration e =>
    obtain ⟨s, -, rfl⟩ := List.mem_map.mp ha
    exact h.admits_of_allows equal ha (hv.of_fragment_eq rfl)
  | literal value =>
    obtain rfl : a = value.alternative := by simpa [listing] using ha
    exact h.admits_of_allows equal ha (hv.of_fragment_eq (by cases value <;> rfl))
  | primitive kind =>
    obtain rfl : a = .value kind := by simpa [listing] using ha
    exact h.admits_of_allows equal ha (hv.of_fragment_eq rfl)
  | null =>
    obtain rfl : a = .null := by simpa [listing] using ha
    exact h.admits_of_allows equal ha (hv.of_fragment_eq rfl)
  | wildcard => rfl
  | unsupported spelling => exact absurd (clean_iff.mp h).2.1 (by simp [Sound])

/-- What the type of a place stands for under a policy. -/
def underPolicy : NullPolicy → Descriptor → Descriptor
  | .typeNull, d => d
  | .omit, d => d.relaxedPlace

theorem Clean.admits_underPolicy (h : d.Clean limit depth) {policy : NullPolicy} {v : Json}
    (hv : (Schema.ofAlternatives policy d.listing).accepts equal v = true) :
    (d.underPolicy policy).admits equal v = true := by
  match policy, hv with
  | .typeNull, hv => exact h.accepts_listing equal v ▸ hv
  | .omit, hv =>
    exact h.admits_relaxedPlace_of equal (fun _ ha _ hv => h.admits_relaxed equal ha hv) hv

end Descriptor

end TypeSchema
