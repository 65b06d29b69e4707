import Mathlib.Data.List.Forall2
import TypeSchema.Proofs.FirstFault

/-!
Arrays as roots. An array is opened once, and its element is then what the bare root would be: the
schema of the array is the array of the schema of the element, and what is wrong with the element is
said in the same words. Only the place is another one, as far as it is a place in the root and not
in one of its objects.
-/
namespace TypeSchema

/-! ### Faults are located where they are looked for -/

def Location.Below (at_ l : Location) : Prop :=
  ∃ segments, l = { at_ with segments := at_.segments ++ segments }

namespace Location.Below

theorem refl (l : Location) : Below l l := ⟨[], by simp⟩

theorem trans {k l m : Location} (h : Below k l) (h' : Below l m) : Below k m := by
  obtain ⟨segments, rfl⟩ := h
  obtain ⟨segments', rfl⟩ := h'
  exact ⟨segments ++ segments', by simp⟩

theorem field (l : Location) (name : String) : Below l (l.field name) := ⟨[.field name], rfl⟩

theorem element (l : Location) : Below l l.element := ⟨[.element], rfl⟩

theorem position (l : Location) (i : Nat) : Below l (l.position i) := ⟨[.position i], rfl⟩

end Location.Below

theorem Enumeration.location_of_mem_faults {at_ : Location} {e : Enumeration} {r : Rejection}
    (h : r ∈ e.faults at_) : r.location = at_ := by
  unfold Enumeration.faults at h
  split at h
  · obtain rfl := List.mem_singleton.mp h
    rfl
  · obtain ⟨m, -, hm⟩ := List.mem_filterMap.mp h
    unfold Member.fault? at hm
    split at hm
    · cases hm
    · split at hm
      · cases hm
      · cases hm
        rfl

namespace Descriptor

section
variable {limit depth : Nat} {at_ : Location}

theorem below_of_mem_memberFaultsAt {ds : List Descriptor} {r : Rejection}
    (h : ∀ d ∈ ds, ∀ r ∈ faultsAt limit depth at_ d, at_.Below r.location)
    (hr : r ∈ memberFaultsAt limit depth at_ ds) : at_.Below r.location := by
  induction ds with
  | nil => cases hr
  | cons d ds ih =>
    rw [List.forall_mem_cons] at h
    rcases List.mem_append.mp hr with hr | hr
    · exact h.1 r hr
    · exact ih h.2 hr

theorem below_of_mem_positionFaultsAt {ds : List Descriptor} {i : Nat} {r : Rejection}
    (h : ∀ d ∈ ds, ∀ at_, ∀ r ∈ faultsAt limit depth at_ d, at_.Below r.location)
    (hr : r ∈ positionFaultsAt limit depth at_ i ds) : at_.Below r.location := by
  induction ds generalizing i with
  | nil => cases hr
  | cons d ds ih =>
    rw [List.forall_mem_cons] at h
    rcases List.mem_append.mp hr with hr | hr
    · exact (Location.Below.position at_ i).trans (h.1 _ r hr)
    · exact ih h.2 hr

theorem below_of_mem_declarationFaultsAt {ds : List Descriptor} {r : Rejection}
    (h : ∀ d ∈ ds, ∀ r ∈ faultsAt limit depth at_ d, at_.Below r.location)
    (hr : r ∈ declarationFaultsAt limit depth at_ ds) : at_.Below r.location := by
  match ds, h, hr with
  | [], _, hr =>
    obtain rfl := List.mem_singleton.mp hr
    exact .refl at_
  | [d], h, hr => exact h d (by simp) r hr
  | d :: e :: more, _, hr =>
    obtain rfl := List.mem_singleton.mp hr
    exact .refl at_

theorem below_field_of_mem_fieldFaultsAt {all fields : List Field} {seen : List String}
    {r : Rejection}
    (h : ∀ f ∈ fields, ∀ d ∈ f.declarations, ∀ at_, ∀ r ∈ faultsAt limit depth at_ d,
      at_.Below r.location)
    (hr : r ∈ fieldFaultsAt limit depth at_ all seen fields) :
    ∃ name, (at_.field name).Below r.location := by
  induction fields generalizing seen with
  | nil => cases hr
  | cons f fields ih =>
    obtain ⟨name, optional, declarations⟩ := f
    rw [List.forall_mem_cons] at h
    rcases List.mem_append.mp hr with hr | hr
    · split at hr
      · obtain rfl := List.mem_singleton.mp hr
        exact ⟨name, .refl _⟩
      · exact ⟨name, below_of_mem_declarationFaultsAt (fun d hd => h.1 d hd _) hr⟩
    · exact ih h.2 hr

theorem below_of_le {d : Descriptor}
    (h : depth ≤ limit → ∀ r ∈ faultsAt limit depth at_ d, at_.Below r.location) :
    ∀ r ∈ faultsAt limit depth at_ d, at_.Below r.location := by
  rcases Nat.lt_or_ge limit depth with hlt | hle
  · intro r hr
    rw [faultsAt_of_lt at_ d hlt] at hr
    obtain rfl := List.mem_singleton.mp hr
    exact .refl at_
  · exact h hle

end

/-- Every fault is located where the walk stands, or below. -/
theorem below_of_mem_faultsAt (limit depth : Nat) (at_ : Location) (d : Descriptor) :
    ∀ r ∈ faultsAt limit depth at_ d, at_.Below r.location := by
  induction d generalizing depth at_ with
  | object name fields ih =>
    refine below_of_le fun hle r hr => ?_
    rw [faultsAt_object hle] at hr
    obtain ⟨field, hr⟩ := below_field_of_mem_fieldFaultsAt (fun f hf d hd => ih f hf d hd _) hr
    exact (Location.Below.field at_ field).trans hr
  | array element ih =>
    refine below_of_le fun hle r hr => ?_
    rw [faultsAt_array hle] at hr
    exact (Location.Below.element at_).trans (ih _ _ r hr)
  | tuple elements ih =>
    refine below_of_le fun hle r hr => ?_
    rw [faultsAt_tuple hle] at hr
    exact below_of_mem_positionFaultsAt (fun d hd => ih d hd _) hr
  | union members ih =>
    refine below_of_le fun hle r hr => ?_
    rw [faultsAt_union hle] at hr
    split at hr
    · obtain rfl := List.mem_singleton.mp hr
      exact .refl at_
    · exact below_of_mem_memberFaultsAt (fun d hd => ih d hd _ at_) hr
  | enumeration e =>
    refine below_of_le fun hle r hr => ?_
    rw [faultsAt_enumeration hle] at hr
    rw [Enumeration.location_of_mem_faults hr]
    exact .refl at_
  | unsupported spelling =>
    refine below_of_le fun hle r hr => ?_
    rw [faultsAt, if_neg (Nat.not_lt.mpr hle)] at hr
    obtain rfl := List.mem_singleton.mp hr
    exact .refl at_
  | _ =>
    refine below_of_le fun hle r hr => ?_
    rw [faultsAt, if_neg (Nat.not_lt.mpr hle)] at hr
    cases hr

end Descriptor

namespace Entity

open Descriptor

/-- An object in a root is rejected below one of its fields, and so never where the root is or its
element. -/
theorem location_of_variantOf {limit : Nat} {s : Shape} {r : Rejection}
    (h : variantOf limit s = .error r) :
    r.location ≠ ⟨rootName, []⟩ ∧ r.location ≠ ⟨rootName, [.element]⟩ := by
  rw [variantOf_eq_verdict, verdict_eq_error_iff] at h
  obtain ⟨field, segments, hlocation⟩ := below_field_of_mem_fieldFaultsAt
    (fun _ _ d _ at_ => below_of_mem_faultsAt limit 0 at_ d) (List.mem_of_head? h)
  simp [hlocation, Location.field]

/-! ### The bare root and the array of it -/

/-- Why a root is rejected, and why the array of it is. What is wrong with the root itself is said
of the element, in the place of the element; what is wrong in the fields of an object is said of
the object, wherever that is. -/
inductive RejectedAlike (limit : Nat) (t : Descriptor) : Rejection → Rejection → Prop where
  | shape (found : String) : RejectedAlike limit t ⟨⟨rootName, []⟩, .unsupportedRoot found⟩
    ⟨⟨rootName, [.element]⟩, .unsupportedElement found⟩
  | layers : RejectedAlike limit t ⟨⟨rootName, []⟩, .depthExceeded limit⟩
    ⟨⟨rootName, [.element]⟩, .depthExceeded limit⟩
  | inside {s : Shape} {r : Rejection} : s ∈ shapes t → variantOf limit s = .error r →
    RejectedAlike limit t r r

section
variable {limit : Nat} {t : Descriptor}

theorem misfit_alike (found : Descriptor) :
    RejectedAlike limit t (misfit false found) (misfit true found) := .shape found.label

theorem memberFaultsAt_alike {layer : Nat} {ds : List Descriptor}
    (h : ∀ d ∈ ds, List.Forall₂ (RejectedAlike limit t) (targetFaultsAt limit layer false d)
      (targetFaultsAt limit layer true d)) :
    List.Forall₂ (RejectedAlike limit t) (memberFaultsAt limit layer false ds)
      (memberFaultsAt limit layer true ds) := by
  induction ds with
  | nil => exact .nil
  | cons d ds ih =>
    rw [List.forall_mem_cons] at h
    exact List.rel_append h.1 (ih h.2)

theorem targetFaultsAt_alike (layer : Nat) (d : Descriptor) :
    List.Forall₂ (RejectedAlike limit t) (targetFaultsAt limit layer false d)
      (targetFaultsAt limit layer true d) := by
  induction d generalizing layer with
  | object name fields _ => exact .nil
  | union members ih =>
    unfold targetFaultsAt
    by_cases hlayer : limit < layer
    · rw [if_pos hlayer, if_pos hlayer]
      exact .cons .layers .nil
    · rw [if_neg hlayer, if_neg hlayer]
      exact memberFaultsAt_alike fun d hd => ih d hd (layer + 1)
  | _ => exact .cons (misfit_alike _) .nil

theorem targetFaults_array_alike :
    List.Forall₂ (RejectedAlike limit t) (targetFaults limit false t)
      (targetFaults limit true t) := by
  have h := @targetFaultsAt_alike limit t 1 t
  unfold targetFaults
  generalize targetFaultsAt limit 1 false t = faults at h ⊢
  generalize targetFaultsAt limit 1 true t = faults' at h ⊢
  cases h with
  | nil =>
    by_cases hshapes : (shapes t).isEmpty = true
    · simpa [hshapes] using misfit_alike t
    · simp [hshapes]
  | cons h hs => exact .cons h hs

theorem exists_variantOf_of_head? {r : Rejection}
    (h : ((shapes t).flatMap (variantFaults limit)).head? = some r) :
    ∃ s ∈ shapes t, variantOf limit s = .error r := by
  rw [List.head?_flatMap] at h
  obtain ⟨s, hs, hr⟩ := List.exists_of_findSome?_eq_some h
  refine ⟨s, hs, ?_⟩
  rw [variantOf_eq_verdict, verdict_eq_error_iff]
  exact hr

/-- A target by itself and the array of it: their faults are both none or begin alike. -/
theorem faults_array_alike (ht : target t = (false, t)) :
    faults limit t = [] ∧ faults limit (.array t) = [] ∨
      ∃ r r', (faults limit t).head? = some r ∧ (faults limit (.array t)).head? = some r' ∧
        RejectedAlike limit t r r' := by
  have htargets := @targetFaults_array_alike limit t
  have harray : target (.array t) = (true, t) := rfl
  unfold faults
  rw [ht, harray]
  generalize targetFaults limit false t = rs at htargets ⊢
  generalize targetFaults limit true t = rs' at htargets ⊢
  cases htargets with
  | nil =>
    cases hvariants : ((shapes t).flatMap (variantFaults limit)).head? with
    | none => exact .inl (by simpa using hvariants)
    | some r =>
      obtain ⟨s, hs, hr⟩ := exists_variantOf_of_head? hvariants
      exact .inr ⟨r, r, rfl, rfl, .inside hs hr⟩
  | cons h _ => exact .inr ⟨_, _, rfl, rfl, h⟩

theorem target_of_ne (h : ∀ u, t ≠ .array u ∧ t ≠ .tuple [u]) : target t = (false, t) := by
  unfold target
  split
  next u => exact absurd rfl (h u).1
  next u => exact absurd rfl (h u).2
  next => rfl

end

theorem schema_array_alike {settings : Settings} {t : Descriptor}
    (ht : ∀ u, t ≠ .array u ∧ t ≠ .tuple [u]) :
    (∃ s, t.schema settings = .ok s ∧ (array t).schema settings = .ok (.array s)) ∨
      ∃ r r', t.schema settings = .error r ∧ (array t).schema settings = .error r' ∧
        RejectedAlike settings.maxDepth t r r' := by
  have htarget := target_of_ne ht
  have hlisting : Schema.ofEntity settings.nullPolicy (listing (.array t)) =
      .array (Schema.ofEntity settings.nullPolicy (listing t)) := by
    rw [listing, listing, htarget]
    rfl
  simp only [schema_eq_verdict, verdict_eq_error_iff, verdict_eq_ok_iff, hlisting]
  rcases faults_array_alike htarget with ⟨h, h'⟩ | h
  · exact .inl ⟨_, ⟨h, rfl⟩, h', rfl⟩
  · exact .inr h

theorem RejectedAlike.eq_iff {limit : Nat} {t : Descriptor} {r r' q q' : Rejection}
    (h : RejectedAlike limit t r r') (hq : RejectedAlike limit t q q') : r = q ↔ r' = q' := by
  have hinside {s : Shape} {r : Rejection} (hr : variantOf limit s = .error r)
      (cause : Rejection.Cause) :
      r ≠ ⟨⟨rootName, []⟩, cause⟩ ∧ r ≠ ⟨⟨rootName, [.element]⟩, cause⟩ := by
    obtain ⟨hroot, helement⟩ := location_of_variantOf hr
    exact ⟨fun h => hroot (h ▸ rfl), fun h => helement (h ▸ rfl)⟩
  cases h with
  | inside _ hr =>
    cases hq with
    | inside => exact Iff.rfl
    | _ => exact iff_of_false (hinside hr _).1 (hinside hr _).2
  | _ =>
    cases hq with
    | inside _ hr => exact iff_of_false (hinside hr _).1.symm (hinside hr _).2.symm
    | _ => simp

/-- An array root wraps and changes nothing else. A root that is opened no further compiles exactly
when the array of it does, to the schema of which the array has the array. Whatever the one is
rejected for, the other is rejected for its like, and only for that. A tuple of one position is to
its element what an array is, and an array of either is rejected. -/
theorem array_root_wraps (settings : Settings) :
    (∀ t, (∀ u, t ≠ .array u ∧ t ≠ .tuple [u]) →
      (∀ s', (array t).schema settings = .ok s' ↔
        ∃ s, t.schema settings = .ok s ∧ s' = .array s) ∧
      (∀ r, t.schema settings = .error r → ∃ r', RejectedAlike settings.maxDepth t r r') ∧
      (∀ r', (array t).schema settings = .error r' →
        ∃ r, RejectedAlike settings.maxDepth t r r') ∧
      ∀ r r', RejectedAlike settings.maxDepth t r r' →
        (t.schema settings = .error r ↔ (array t).schema settings = .error r')) ∧
    (∀ t, (tuple [t]).schema settings = (array t).schema settings) ∧
    ∀ t u, t = .array u ∨ t = .tuple [u] → (array t).schema settings =
      .error ⟨⟨rootName, [.element]⟩, .unsupportedElement t.label⟩ := by
  refine ⟨fun t ht => ?_, fun t => ?_, ?_⟩
  · rcases @schema_array_alike settings t ht with ⟨s, hs, hs'⟩ | ⟨q, q', hq, hq', halike⟩
    · rw [hs, hs']
      simp [eq_comm]
    · rw [hq, hq']
      refine ⟨by simp, fun r hr => ⟨q', ?_⟩, fun r' hr' => ⟨q, ?_⟩, fun r r' hr => ?_⟩
      · exact Except.error.inj hr ▸ halike
      · exact Except.error.inj hr' ▸ halike
      · simpa using halike.eq_iff hr
  · rfl
  · rintro t u (rfl | rfl) <;> rfl

/-- A union of objects in an array: as it is; with a member that is no object; under a limit that
has no room for the union; and with a fault below a field. -/
theorem array_root_wraps_dots :
    let dot : Descriptor := .object ⟨some "Dot", [⟨"x", false, [.primitive .number]⟩]⟩
    let faulty : Shape := ⟨none, [⟨"x", false, [.unsupported "Map"]⟩]⟩
    let schema : Schema := .object [("x", .types ["number"])] ["x"]
    (array (.union [dot, dot])).schema {} = .ok (.array (.anyOf [schema, schema])) ∧
      (array (.union [dot, .null])).schema {} =
        .error ⟨⟨rootName, [.element]⟩, .unsupportedElement "null"⟩ ∧
      (array (.union [dot])).schema ⟨0, .omit⟩ =
        .error ⟨⟨rootName, [.element]⟩, .depthExceeded 0⟩ ∧
      (array (.union [dot, .object faulty])).schema {} =
        .error ⟨⟨rootName, [.field "x"]⟩, .unsupportedType "Map"⟩ ∧
      (array (.tuple [dot])).schema {} =
        .error ⟨⟨rootName, [.element]⟩, .unsupportedElement "tuple"⟩ := by
  intro dot faulty schema
  have hunion (settings : Settings) (members : List Descriptor) :=
    (array_root_wraps settings).1 (.union members) (by simp)
  have hfaulty : RejectedAlike 64 (.union [dot, .object faulty])
      ⟨⟨rootName, [.field "x"]⟩, .unsupportedType "Map"⟩
      ⟨⟨rootName, [.field "x"]⟩, .unsupportedType "Map"⟩ :=
    .inside (List.mem_of_mem_tail (List.mem_singleton_self faulty)) rfl
  exact ⟨((hunion {} [dot, dot]).1 _).mpr ⟨_, rfl, rfl⟩,
    ((hunion {} [dot, .null]).2.2.2 _ _ (.shape "null")).mp rfl,
    ((hunion ⟨0, .omit⟩ [dot]).2.2.2 _ _ .layers).mp rfl,
    ((hunion {} [dot, .object faulty]).2.2.2 _ _ hfaulty).mp rfl,
    (array_root_wraps {}).2.2 _ dot (.inr rfl)⟩

end Entity

end TypeSchema
