import Mathlib.Data.List.Basic
import TypeSchema.Proofs.FirstFault
import TypeSchema.Proofs.Nodes

/-!
A type at the root of a document and the same type in the place of a field. At the root its unions
are opened one way and below a field another, each with a count of its own for the depth; what
comes out are the same properties.
-/
namespace TypeSchema

namespace Schema

theorem ofAlternatives_map_object (policy : NullPolicy) (objects : List Properties) :
    ofAlternatives policy (objects.map .object) =
      combine (objects.map (ofProperties policy)) := by
  have hprimitives (seen : List Primitive) :
      Alternative.freshPrimitives seen (objects.map .object) = [] := by
    induction objects with
    | nil => rfl
    | cons ps rest ih => simpa [Alternative.freshPrimitives] using ih
  have hnull : (objects.map Alternative.object).any Alternative.isNull = false := by
    simp [Alternative.isNull]
  have htypes : typeFragment policy (objects.map .object) = [] := by
    unfold typeFragment Alternative.primitives
    rw [hprimitives, hnull]
    cases policy <;> rfl
  have hfragments : fragments policy (objects.map .object) =
      objects.map (ofProperties policy) := by
    rw [fragments_eq_flatMap, List.flatMap_map]
    exact (List.map_eq_flatMap ..).symm
  rw [ofAlternatives, htypes, hfragments, List.nil_append]

end Schema

namespace Descriptor

theorem Opened.listing_eq {limit layer : Nat} {d : Descriptor} (h : d.Opened limit layer) :
    d.listing = (Entity.shapes d).map fun s => .object (fieldListings s.fields) := by
  induction d generalizing layer with
  | object name fields _ => simp [listing, Entity.shapes]
  | union members ih =>
    have hmembers := (opened_union_iff.mp h).2
    rw [listing, memberListings_eq_flatMap, Entity.shapes, Entity.memberShapes_eq_flatMap,
      List.map_flatMap]
    exact List.flatMap_congr fun d hd => ih d hd (hmembers d hd)
  | _ => simpa using h 0 _ (.refl _)

theorem Opened.target_eq {limit layer : Nat} {d : Descriptor} (h : d.Opened limit layer) :
    Entity.target d = (false, d) := by
  rcases h 0 d (.refl d) with ⟨s, rfl⟩ | ⟨⟨members, rfl⟩, -⟩
  · rfl
  · rfl

theorem Clean.opened {limit depth : Nat} {d : Descriptor} (h : d.Clean limit depth)
    (hobjects : ∀ a ∈ d.listing, ∃ ps, a = .object ps) : d.Opened limit (depth + 1) := by
  induction d generalizing depth with
  | object name fields _ =>
    intro k x hx
    cases hx
    exact .inl ⟨_, rfl⟩
  | union members ih =>
    obtain ⟨-, hsound, hparts⟩ := clean_iff.mp h
    obtain ⟨m, hm⟩ := List.exists_mem_of_ne_nil _ hsound
    refine opened_union_iff.mpr ⟨(clean_iff.mp (hparts m hm)).1, fun d hd => ?_⟩
    refine ih d hd (hparts d hd) fun a ha => hobjects a ?_
    rw [listing, memberListings_eq_flatMap]
    exact List.mem_flatMap.mpr ⟨d, hd, ha⟩
  | literal value =>
    obtain ⟨ps, hps⟩ := hobjects value.alternative (by simp [listing])
    cases value <;> simp [Constant.alternative] at hps
  | enumeration e =>
    obtain ⟨a, ha⟩ := List.exists_mem_of_ne_nil _ h.listing_ne_nil
    obtain ⟨ps, rfl⟩ := hobjects a ha
    simp [listing] at ha
  | unsupported spelling => exact absurd (clean_iff.mp h).2.1 (by simp [Sound])
  | _ =>
    obtain ⟨ps, hps⟩ := hobjects _ (List.mem_singleton_self _)
    exact absurd hps (by simp)

/-- A target lies below at most `limit` unions, and what lies below its objects at most `limit`
further; a walk from the target counts both, and the object between. -/
theorem Opened.clean {limit depth m : Nat} {d : Descriptor} (h : d.Opened limit (depth + 1))
    (hdepth : depth ≤ limit) (hm : 2 * limit + 1 ≤ m) (hne : ∀ k, ¬ d.Opens k (.union []))
    (hshapes : ∀ s ∈ Entity.shapes d, s.Unambiguous ∧
      ∀ f ∈ s.fields, ∀ e ∈ f.declarations, e.Clean limit 0) : d.Clean m depth := by
  induction d generalizing depth with
  | object name fields _ =>
    obtain ⟨hsound, hfields⟩ := hshapes ⟨name, fields⟩ (by simp [Entity.shapes])
    refine clean_iff.mpr ⟨by omega, hsound, fun e he => ?_⟩
    obtain ⟨f, hf, he⟩ := List.mem_flatMap.mp he
    exact (hfields f hf e he).mono (by omega)
  | union members ih =>
    obtain ⟨hlayer, hmembers⟩ := opened_union_iff.mp h
    refine clean_iff.mpr ⟨by omega, fun hnil => hne 0 (hnil ▸ .refl _), fun d hd => ?_⟩
    refine ih d hd (hmembers d hd) hlayer (fun k hk => hne (k + 1) (.step hd hk))
      fun s hs => hshapes s ?_
    rw [Entity.shapes, Entity.memberShapes_eq_flatMap]
    exact List.mem_flatMap.mpr ⟨d, hd, hs⟩
  | _ => simpa using h 0 _ (.refl _)

end Descriptor

namespace Entity

open Descriptor

theorem ofDescriptor_of_alternatives {limit : Nat} {at_ : Location} {t : Descriptor}
    {as : List Alternative} (h : t.alternatives limit at_ = .ok as)
    (hobjects : ∀ a ∈ as, ∃ ps, a = .object ps) :
    ofDescriptor limit t = .ok ⟨targetName t, false, (shapes t).map variant⟩ ∧
      as = (shapes t).map fun s => .object (variant s).properties := by
  obtain ⟨hfaults, rfl⟩ := alternatives_eq_ok_iff.mp h
  have hclean := faultsAt_eq_nil_iff.mp hfaults
  have hopened := hclean.opened hobjects
  have htarget := hopened.target_eq
  refine ⟨ofDescriptor_eq_ok_iff.mpr ⟨?_, by rw [listing, htarget]⟩, hopened.listing_eq⟩
  rw [faults_eq_nil_iff, htarget]
  refine ⟨hopened, fun hnil => ?_, fun s hs => ?_⟩
  · have := hclean.listing_ne_nil
    rw [hopened.listing_eq, hnil] at this
    exact this rfl
  · obtain ⟨k, hk⟩ := mem_shapes_iff.mp hs
    obtain ⟨-, hsound, hparts⟩ := clean_iff.mp (hclean.of_reaches hk.reaches)
    refine ⟨hsound, fun f hf d hd => ?_⟩
    exact (hparts d (List.mem_flatMap.mpr ⟨f, hf, hd⟩)).mono (by omega)

theorem alternatives_of_ofDescriptor {limit m : Nat} {at_ : Location} {t : Descriptor} {e : Entity}
    (htarget : target t = (false, t)) (hne : ∀ k, ¬ t.Opens k (.union []))
    (h : ofDescriptor limit t = .ok e) (hm : 2 * limit + 1 ≤ m) :
    t.alternatives m at_ = .ok (e.variants.map fun v => .object v.properties) := by
  obtain ⟨hfaults, rfl⟩ := ofDescriptor_eq_ok_iff.mp h
  rw [faults_eq_nil_iff, htarget] at hfaults
  obtain ⟨hopened, -, hshapes⟩ := hfaults
  have hclean := hopened.clean (Nat.zero_le _) hm hne hshapes
  refine alternatives_eq_ok_iff.mpr ⟨faultsAt_eq_nil_iff.mpr hclean, ?_⟩
  rw [hopened.listing_eq, listing, htarget, List.map_map]
  rfl

/-- The root of a document and the place of a field agree. What a field lists, when it lists only
objects, are the variants that the root has, and the schemas are equal under either policy. The
variants of a root that is no array are what a field lists at every limit that is large enough. -/
theorem root_and_field_agree :
    (∀ limit at_ t as, t.alternatives limit at_ = .ok as → (∀ a ∈ as, ∃ ps, a = .object ps) →
      ∃ e, ofDescriptor limit t = .ok e ∧ e.isArray = false ∧
        as = e.variants.map (fun v => .object v.properties) ∧
        ∀ policy, Schema.ofEntity policy e = Schema.ofAlternatives policy as) ∧
    ∀ limit t e, ((∃ s, t = .object s) ∨ ∃ members, t = .union members) →
      (∀ k, ¬ t.Opens k (.union [])) → ofDescriptor limit t = .ok e →
      ∀ m, 2 * limit + 1 ≤ m → ∀ at_,
        t.alternatives m at_ = .ok (e.variants.map fun v => .object v.properties) := by
  constructor
  · intro limit at_ t as h hobjects
    obtain ⟨he, rfl⟩ := ofDescriptor_of_alternatives h hobjects
    refine ⟨_, he, rfl, by simp, fun policy => ?_⟩
    have hfields := Schema.ofAlternatives_map_object policy
      ((shapes t).map fun s => (variant s).properties)
    rw [List.map_map, List.map_map] at hfields
    rw [Schema.ofEntity, List.map_map]
    exact hfields.symm
  · rintro limit t e (⟨s, rfl⟩ | ⟨members, rfl⟩) hne h m hm at_
    · exact alternatives_of_ofDescriptor rfl hne h hm
    · exact alternatives_of_ofDescriptor rfl hne h hm

/-- A union in a union, first below a field and then at the root. -/
theorem root_and_field_agree_nested :
    (∃ e, ofDescriptor 2 (.union [.object ⟨some "A", []⟩, .union [.object ⟨none, []⟩]]) = .ok e ∧
      e.isArray = false ∧
      [.object [], .object []] = e.variants.map (fun v => Alternative.object v.properties) ∧
      ∀ policy, Schema.ofEntity policy e =
        Schema.ofAlternatives policy [.object [], .object []]) ∧
    (union [.object ⟨some "A", []⟩, .union [.object ⟨none, []⟩]]).alternatives 5 ⟨"x", []⟩ =
      .ok [.object [], .object []] := by
  constructor
  · exact root_and_field_agree.1 2 ⟨"x", []⟩ _ _ rfl (by simp)
  · refine root_and_field_agree.2 2 _ ⟨none, false, [⟨some "A", []⟩, ⟨none, []⟩]⟩ (.inr ⟨_, rfl⟩)
      (fun k h => ?_) rfl 5 (by omega) ⟨"x", []⟩
    cases h with
    | step hd h =>
      obtain rfl | rfl := by simpa using hd
      · cases h
      · cases h with
        | step hd h =>
          obtain rfl : _ = object ⟨none, []⟩ := by simpa using hd
          cases h

end Entity

end TypeSchema
