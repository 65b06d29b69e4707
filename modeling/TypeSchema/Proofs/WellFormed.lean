import TypeSchema.Proofs.Meaning

/-!
What holds of every list of alternatives that comes from a descriptor: no list in it is empty, and
the properties of each object have distinct names. The schema of a root is that of such a list.
-/
namespace TypeSchema

namespace Alternative

/-- No list of alternatives inside is empty, and names stand for one property each. -/
inductive WellFormed : Alternative → Prop where
  | value (kind : Primitive) : WellFormed (.value kind)
  | literal (s : Scalar) : WellFormed (.literal s)
  | null : WellFormed .null
  | any : WellFormed .any
  | object {properties : Properties} : (Keyed.keys properties).Nodup →
    (∀ p ∈ properties, p.2.alternatives ≠ []) →
    (∀ p ∈ properties, ∀ a ∈ p.2.alternatives, WellFormed a) → WellFormed (.object properties)
  | array {items : List Alternative} : items ≠ [] → (∀ a ∈ items, WellFormed a) →
    WellFormed (.array items)
  | tuple {positions : List (List Alternative)} : (∀ as ∈ positions, as ≠ []) →
    (∀ as ∈ positions, ∀ a ∈ as, WellFormed a) → WellFormed (.tuple positions)

end Alternative

namespace Descriptor

theorem Clean.wellFormed {limit depth : Nat} {d : Descriptor} (h : d.Clean limit depth) :
    ∀ a ∈ d.listing, a.WellFormed := by
  induction d generalizing depth with
  | object name fields ih =>
    obtain ⟨-, hsound, hparts⟩ := clean_iff.mp h
    have hproperty (p : String × Property) (hp : p ∈ fieldListings fields) :
        ∃ f ∈ fields, ∃ d ∈ f.declarations, d.Clean limit (depth + 1) ∧
          p.2.alternatives = d.listing := by
      rw [fieldListings_eq_map] at hp
      obtain ⟨f, hf, rfl⟩ := List.mem_map.mp hp
      obtain ⟨d, hd⟩ := hsound.single f hf
      have hclean := hparts d (List.mem_flatMap.mpr ⟨f, hf, by simp [hd]⟩)
      exact ⟨f, hf, d, by simp [hd], hclean, by simp [Field.property, hd]⟩
    rintro a ha
    obtain rfl : a = .object (fieldListings fields) := by simpa [listing] using ha
    refine .object (keys_fieldListings fields ▸ hsound.nodup) (fun p hp => ?_) fun p hp => ?_
    · obtain ⟨f, hf, d, hd, hclean, heq⟩ := hproperty p hp
      exact heq ▸ hclean.listing_ne_nil
    · obtain ⟨f, hf, d, hd, hclean, heq⟩ := hproperty p hp
      exact heq ▸ ih f hf d hd hclean
  | array element ih =>
    have hclean := (clean_iff.mp h).2.2 element (by simp [parts])
    intro a ha
    obtain rfl : a = .array element.listing := by simpa [listing] using ha
    exact .array hclean.listing_ne_nil (ih hclean)
  | tuple elements ih =>
    have hparts := (clean_iff.mp h).2.2
    intro a ha
    obtain rfl : a = .tuple (elements.map listing) := by
      simpa [listing, positionListings_eq_map] using ha
    refine .tuple (fun as has => ?_) fun as has => ?_
    · obtain ⟨d, hd, rfl⟩ := List.mem_map.mp has
      exact (hparts d hd).listing_ne_nil
    · obtain ⟨d, hd, rfl⟩ := List.mem_map.mp has
      exact ih d hd (hparts d hd)
  | union members ih =>
    have hparts := (clean_iff.mp h).2.2
    intro a ha
    rw [listing, memberListings_eq_flatMap] at ha
    obtain ⟨d, hd, ha⟩ := List.mem_flatMap.mp ha
    exact ih d hd (hparts d hd) a ha
  | enumeration e =>
    intro a ha
    obtain ⟨s, -, rfl⟩ := List.mem_map.mp ha
    exact .literal s
  | literal value =>
    intro a ha
    obtain rfl : a = value.alternative := by simpa [listing] using ha
    cases value <;> constructor
  | unsupported spelling => simp [listing]
  | primitive kind => simpa [listing] using .value kind
  | null => simpa [listing] using .null
  | wildcard => simpa [listing] using .any

end Descriptor

theorem Schema.ofAlternatives_array (policy : NullPolicy) (items : List Alternative) :
    ofAlternatives policy [.array items] = .array (ofAlternatives policy items) := by
  cases policy <;> rfl

namespace Descriptor

theorem schema_eq_ok {settings : Settings} {root : Descriptor} {s : Schema}
    (h : root.schema settings = .ok s) :
    root.asRoot.listing ≠ [] ∧ (∀ a ∈ root.asRoot.listing, a.WellFormed) ∧
      s = Schema.ofAlternatives settings.nullPolicy root.asRoot.listing := by
  rw [schema_eq_verdict, verdict_eq_ok_iff, Entity.faults_eq_nil_iff] at h
  obtain ⟨⟨hopened, hne, hshapes⟩, rfl⟩ := h
  have htarget : (Entity.target root).2.listing ≠ [] ∧
      ∀ a ∈ (Entity.target root).2.listing, a.WellFormed := by
    rw [hopened.listing_eq]
    refine ⟨by simpa using hne, fun a ha => ?_⟩
    obtain ⟨⟨name, fields⟩, hshape, rfl⟩ := List.mem_map.mp ha
    obtain ⟨hsound, hfields⟩ := hshapes _ hshape
    exact (clean_object hsound hfields).wellFormed _ (by simp [listing])
  rw [Schema.ofEntity_listing settings.nullPolicy hopened, asRoot_eq_target]
  cases (Entity.target root).1 with
  | false => exact ⟨htarget.1, htarget.2, rfl⟩
  | true =>
    refine ⟨by simp [listing], fun a ha => ?_, ?_⟩
    · obtain rfl : a = .array (Entity.target root).2.listing := by simpa [listing] using ha
      exact .array htarget.1 htarget.2
    · exact (Schema.ofAlternatives_array ..).symm

end Descriptor

end TypeSchema
