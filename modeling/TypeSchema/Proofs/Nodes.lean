import TypeSchema.Proofs.Faults

/-!
The nodes of a descriptor and what must hold of each. A descriptor is free of faults exactly when
every node in it is sound and no deeper than the limit allows; a target, when what its unions open
to are objects, and no union lies in too many others.
-/
namespace TypeSchema

/-- Every name stands for one field, and every field has one declaration. -/
structure Shape.Unambiguous (s : Shape) : Prop where
  nodup : (s.fields.map (·.name)).Nodup
  single : ∀ f ∈ s.fields, ∃ d, f.declarations = [d]

/-- The initializer is absent or a scalar. -/
def Member.Plain (m : Member) : Prop := ∀ v, m.initializer = some v → v.isScalar = true

namespace Descriptor

def parts : Descriptor → List Descriptor
  | .object s => s.fields.flatMap (·.declarations)
  | .array element => [element]
  | .tuple elements => elements
  | .union members => members
  | _ => []

theorem induction_on_parts {motive : Descriptor → Prop} (d : Descriptor)
    (node : ∀ d, (∀ e ∈ d.parts, motive e) → motive d) : motive d := by
  induction d with
  | object name fields ih =>
    refine node _ fun e he => ?_
    obtain ⟨f, hf, he⟩ := List.mem_flatMap.mp he
    exact ih f hf e he
  | array element ih => exact node _ fun e he => List.mem_singleton.mp he ▸ ih
  | tuple elements ih => exact node _ ih
  | union members ih => exact node _ ih
  | _ => exact node _ nofun

/-- The nodes a number of steps below a descriptor. -/
inductive Reaches : Descriptor → Nat → Descriptor → Prop where
  | refl (d : Descriptor) : Reaches d 0 d
  | step {d e x : Descriptor} {k : Nat} : e ∈ d.parts → Reaches e k x → Reaches d (k + 1) x

/-- The nodes inside so many unions directly nested in a descriptor. -/
inductive Opens : Descriptor → Nat → Descriptor → Prop where
  | refl (d : Descriptor) : Opens d 0 d
  | step {members : List Descriptor} {d x : Descriptor} {k : Nat} :
    d ∈ members → Opens d k x → Opens (.union members) (k + 1) x

/-- What a node must be for itself, whatever its parts are. -/
def Sound : Descriptor → Prop
  | .object s => s.Unambiguous
  | .union members => members ≠ []
  | .enumeration e => e.members ≠ [] ∧ ∀ m ∈ e.members, m.Plain
  | .unsupported _ => False
  | _ => True

/-- Every node is sound and, counted from this depth, within the limit. -/
def Clean (limit depth : Nat) (d : Descriptor) : Prop :=
  ∀ k x, d.Reaches k x → depth + k ≤ limit ∧ x.Sound

theorem clean_iff {limit depth : Nat} {d : Descriptor} :
    d.Clean limit depth ↔
      depth ≤ limit ∧ d.Sound ∧ ∀ e ∈ d.parts, e.Clean limit (depth + 1) := by
  constructor
  · intro h
    have hd := h 0 d (.refl d)
    refine ⟨by omega, hd.2, fun e he k x hx => ?_⟩
    have hx := h (k + 1) x (.step he hx)
    exact ⟨by omega, hx.2⟩
  · rintro ⟨hdepth, hsound, hparts⟩ k x hx
    cases hx with
    | refl => exact ⟨by omega, hsound⟩
    | step he hx =>
      have hx := hparts _ he _ _ hx
      exact ⟨by omega, hx.2⟩

theorem Clean.mono {limit depth limit' depth' : Nat} {d : Descriptor} (h : d.Clean limit depth)
    (hle : limit + depth' ≤ limit' + depth) : d.Clean limit' depth' := by
  intro k x hx
  have := h k x hx
  exact ⟨by omega, this.2⟩

theorem Clean.of_reaches {limit depth k : Nat} {d x : Descriptor} (h : d.Clean limit depth)
    (hx : d.Reaches k x) : x.Clean limit (depth + k) := by
  induction hx generalizing depth with
  | refl d => exact h
  | step he _ ih =>
    have := ih ((clean_iff.mp h).2.2 _ he)
    exact this.mono (by omega)

theorem Opens.reaches {k : Nat} {d x : Descriptor} (h : d.Opens k x) : d.Reaches k x := by
  induction h with
  | refl d => exact .refl d
  | step hd _ ih => exact .step hd ih

end Descriptor

namespace Member

theorem Plain.exists_scalar? {m : Member} (h : m.Plain) (ordinal : Nat) :
    ∃ s, m.scalar? ordinal = some s := by
  unfold scalar?
  cases hm : m.initializer with
  | none => exact ⟨_, rfl⟩
  | some v =>
    have hv := h v hm
    cases v <;> simp_all [Json.isScalar]

theorem fault?_eq_none_iff {at_ : Location} {m : Member} : m.fault? at_ = none ↔ m.Plain := by
  unfold fault? Plain
  cases m.initializer with
  | none => simp
  | some v => simp

end Member

theorem Enumeration.faults_eq_nil_iff {at_ : Location} {e : Enumeration} :
    e.faults at_ = [] ↔ e.members ≠ [] ∧ ∀ m ∈ e.members, m.Plain := by
  unfold Enumeration.faults
  by_cases h : e.members = []
  · simp [h]
  · simp [h, List.filterMap_eq_nil_iff, Member.fault?_eq_none_iff]

namespace Descriptor

theorem Clean.listing_ne_nil {limit depth : Nat} {d : Descriptor} (h : d.Clean limit depth) :
    d.listing ≠ [] := by
  obtain ⟨-, hsound, hparts⟩ := clean_iff.mp h
  induction d generalizing depth with
  | union members ih =>
    obtain ⟨m, hm⟩ := List.exists_mem_of_ne_nil _ hsound
    have hclean := hparts m hm
    obtain ⟨-, hsound, hparts⟩ := clean_iff.mp hclean
    have hne := ih m hm hclean hsound hparts
    rw [listing, memberListings_eq_flatMap]
    exact fun hnil => hne (List.flatMap_eq_nil_iff.mp hnil m hm)
  | enumeration e =>
    obtain ⟨hne, hplain⟩ := hsound
    obtain ⟨m, ms, hms⟩ := List.exists_cons_of_ne_nil hne
    obtain ⟨s, hs⟩ := (hplain m (by simp [hms])).exists_scalar? 0
    simp [listing, hms, Member.scalars, hs]
  | unsupported spelling => exact absurd hsound (by simp [Sound])
  | _ => simp [listing]

section
variable {limit depth : Nat}

theorem memberFaultsAt_eq_nil_iff {at_ : Location} {ds : List Descriptor} :
    memberFaultsAt limit depth at_ ds = [] ↔ ∀ d ∈ ds, faultsAt limit depth at_ d = [] := by
  induction ds with
  | nil => simp [memberFaultsAt]
  | cons d ds ih => simp [memberFaultsAt, ih]

theorem positionFaultsAt_eq_nil_iff {at_ : Location} {ds : List Descriptor}
    (h : ∀ d ∈ ds, ∀ at_, faultsAt limit depth at_ d = [] ↔ d.Clean limit depth) (i : Nat) :
    positionFaultsAt limit depth at_ i ds = [] ↔ ∀ d ∈ ds, d.Clean limit depth := by
  induction ds generalizing i with
  | nil => simp [positionFaultsAt]
  | cons d ds ih =>
    have hrest := ih (fun e he => h e (by simp [he])) (i + 1)
    have hd := h d (by simp) (at_.position i)
    simp [positionFaultsAt, hrest, hd]

theorem declarationFaultsAt_eq_nil_iff {ds : List Descriptor}
    (h : ∀ d ∈ ds, ∀ at_, faultsAt limit depth at_ d = [] ↔ d.Clean limit depth)
    (at_ : Location) :
    declarationFaultsAt limit depth at_ ds = [] ↔ ∃ d, ds = [d] ∧ d.Clean limit depth := by
  match ds, h with
  | [], _ => simp [declarationFaultsAt]
  | [d], h => simpa [declarationFaultsAt] using h d (by simp) at_
  | d :: e :: more, _ => simp [declarationFaultsAt]

theorem fieldFaultsAt_eq_nil_iff {at_ : Location} {all fields : List Field}
    (h : ∀ f ∈ fields, ∀ d ∈ f.declarations, ∀ at_,
      faultsAt limit depth at_ d = [] ↔ d.Clean limit depth) (seen : List String) :
    fieldFaultsAt limit depth at_ all seen fields = [] ↔
      (∀ f ∈ fields, f.name ∉ seen) ∧ (fields.map (·.name)).Nodup ∧
        ∀ f ∈ fields, ∃ d, f.declarations = [d] ∧ d.Clean limit depth := by
  induction fields generalizing seen with
  | nil => simp [fieldFaultsAt]
  | cons f fields ih =>
    obtain ⟨name, optional, declarations⟩ := f
    have hrest := ih (fun g hg => h g (by simp [hg])) (name :: seen)
    have hhead := declarationFaultsAt_eq_nil_iff (h _ (List.mem_cons_self ..)) (at_.field name)
    have hname : (if seen.contains name then
          [Rejection.mk (at_.field name) (.ambiguousDeclaration (countNamed name all))]
        else declarationFaultsAt limit depth (at_.field name) declarations) = [] ↔
        name ∉ seen ∧ ∃ d, declarations = [d] ∧ d.Clean limit depth := by
      by_cases hseen : name ∈ seen
      · simp [hseen]
      · simpa [hseen] using hhead
    rw [fieldFaultsAt, List.append_eq_nil_iff, hname, hrest, List.forall_mem_cons,
      List.forall_mem_cons, List.map_cons, List.nodup_cons]
    simp only [List.mem_cons, not_or, List.mem_map, not_exists, not_and]
    constructor
    · rintro ⟨⟨hseen, hsingle⟩, hfresh, hnodup, hrest⟩
      exact ⟨⟨hseen, fun g hg => (hfresh g hg).2⟩, ⟨fun g hg => (hfresh g hg).1, hnodup⟩,
        hsingle, hrest⟩
    · rintro ⟨⟨hseen, hfresh⟩, ⟨hname, hnodup⟩, hsingle, hrest⟩
      exact ⟨⟨hseen, hsingle⟩, fun g hg => ⟨hname g hg, hfresh g hg⟩, hnodup, hrest⟩

theorem shapeFaultsAt_eq_nil_iff {at_ : Location} {s : Shape}
    (h : ∀ f ∈ s.fields, ∀ d ∈ f.declarations, ∀ at_,
      faultsAt limit depth at_ d = [] ↔ d.Clean limit depth) :
    fieldFaultsAt limit depth at_ s.fields [] s.fields = [] ↔
      s.Unambiguous ∧ ∀ f ∈ s.fields, ∀ d ∈ f.declarations, d.Clean limit depth := by
  rw [fieldFaultsAt_eq_nil_iff h]
  constructor
  · rintro ⟨-, hnodup, hall⟩
    refine ⟨⟨hnodup, fun f hf => ?_⟩, fun f hf e he => ?_⟩
    · obtain ⟨d, hd, -⟩ := hall f hf
      exact ⟨d, hd⟩
    · obtain ⟨d, hd, hclean⟩ := hall f hf
      have : e = d := by simpa [hd] using he
      exact this ▸ hclean
  · rintro ⟨⟨hnodup, hsingle⟩, hclean⟩
    refine ⟨by simp, hnodup, fun f hf => ?_⟩
    obtain ⟨d, hd⟩ := hsingle f hf
    exact ⟨d, hd, hclean f hf d (by simp [hd])⟩

theorem faultsAt_eq_nil_iff_of_le {at_ : Location} {d : Descriptor}
    (h : depth ≤ limit → (faultsAt limit depth at_ d = [] ↔
      d.Sound ∧ ∀ e ∈ d.parts, e.Clean limit (depth + 1))) :
    faultsAt limit depth at_ d = [] ↔ d.Clean limit depth := by
  rw [clean_iff]
  rcases Nat.lt_or_ge limit depth with hlt | hle
  · simp [faultsAt_of_lt at_ d hlt, Nat.not_le.mpr hlt]
  · simpa [hle] using h hle

end

/-- A walk finds no fault exactly where every node is sound and within the limit. -/
theorem faultsAt_eq_nil_iff {limit depth : Nat} {at_ : Location} {d : Descriptor} :
    faultsAt limit depth at_ d = [] ↔ d.Clean limit depth := by
  induction d generalizing depth at_ with
  | object name fields ih =>
    refine faultsAt_eq_nil_iff_of_le fun hle => ?_
    have hfields := @shapeFaultsAt_eq_nil_iff limit (depth + 1) at_ ⟨name, fields⟩
      (fun f hf d hd at_ => @ih f hf d hd (depth + 1) at_)
    rw [faultsAt_object hle, hfields]
    simp only [Sound, parts, List.mem_flatMap, forall_exists_index, and_imp]
    exact and_congr_right fun _ => ⟨fun h d f hf hd => h f hf d hd, fun h f hf d hd => h d f hf hd⟩
  | array element ih =>
    refine faultsAt_eq_nil_iff_of_le fun hle => ?_
    rw [faultsAt_array hle, ih]
    simp [Sound, parts]
  | tuple elements ih =>
    refine faultsAt_eq_nil_iff_of_le fun hle => ?_
    rw [faultsAt_tuple hle,
      positionFaultsAt_eq_nil_iff (fun d hd at_ => @ih d hd (depth + 1) at_) 0]
    simp [Sound, parts]
  | union members ih =>
    refine faultsAt_eq_nil_iff_of_le fun hle => ?_
    rw [faultsAt_union hle]
    by_cases hm : members = []
    · simp [hm, Sound]
    · simp +contextual [hm, Sound, parts, memberFaultsAt_eq_nil_iff, ih]
  | enumeration e =>
    refine faultsAt_eq_nil_iff_of_le fun hle => ?_
    rw [faultsAt_enumeration hle, Enumeration.faults_eq_nil_iff]
    simp [Sound, parts]
  | unsupported spelling =>
    refine faultsAt_eq_nil_iff_of_le fun hle => ?_
    rw [faultsAt, if_neg (Nat.not_lt.mpr hle)]
    simp [Sound]
  | _ =>
    refine faultsAt_eq_nil_iff_of_le fun hle => ?_
    rw [faultsAt, if_neg (Nat.not_lt.mpr hle)]
    simp [Sound, parts]

theorem clean_object {limit : Nat} {s : Shape} (h : s.Unambiguous)
    (hfields : ∀ f ∈ s.fields, ∀ d ∈ f.declarations, d.Clean limit 0) :
    (object s).Clean (limit + 1) 0 := by
  refine clean_iff.mpr ⟨Nat.zero_le _, h, fun d hd => ?_⟩
  obtain ⟨f, hf, hd⟩ := List.mem_flatMap.mp hd
  exact (hfields f hf d hd).mono (by omega)

/-! The same for what the unions of a target open to. -/

/-- Every node is an object or a union, and no union is in more others than the limit allows. -/
def Opened (limit layer : Nat) (d : Descriptor) : Prop :=
  ∀ k x, d.Opens k x → (∃ s, x = .object s) ∨ (∃ members, x = .union members) ∧ layer + k ≤ limit

theorem opened_union_iff {limit layer : Nat} {members : List Descriptor} :
    (union members).Opened limit layer ↔
      layer ≤ limit ∧ ∀ d ∈ members, d.Opened limit (layer + 1) := by
  constructor
  · intro h
    refine ⟨?_, fun d hd k x hx => ?_⟩
    · simpa using h 0 _ (.refl _)
    · have hx := h (k + 1) x (.step hd hx)
      exact hx.imp_right fun h => ⟨h.1, by omega⟩
  · rintro ⟨hlayer, hmembers⟩ k x hx
    cases hx with
    | refl => exact .inr ⟨⟨members, rfl⟩, hlayer⟩
    | step hd hx => exact (hmembers _ hd _ _ hx).imp_right fun h => ⟨h.1, by omega⟩

end Descriptor

theorem Shape.faults_eq_nil_iff {limit : Nat} {at_ : Location} {s : Shape} :
    s.faults limit at_ = [] ↔
      s.Unambiguous ∧ ∀ f ∈ s.fields, ∀ d ∈ f.declarations, d.Clean limit 0 :=
  Descriptor.shapeFaultsAt_eq_nil_iff fun _ _ _ _ _ => Descriptor.faultsAt_eq_nil_iff

namespace Entity

open Descriptor

theorem memberFaultsAt_eq_nil_iff {limit layer : Nat} {isArray : Bool} {ds : List Descriptor} :
    memberFaultsAt limit layer isArray ds = [] ↔
      ∀ d ∈ ds, targetFaultsAt limit layer isArray d = [] := by
  induction ds with
  | nil => simp [memberFaultsAt]
  | cons d ds ih => simp [memberFaultsAt, ih]

theorem targetFaultsAt_eq_nil_iff {limit layer : Nat} {isArray : Bool} {d : Descriptor} :
    targetFaultsAt limit layer isArray d = [] ↔ d.Opened limit layer := by
  induction d generalizing layer with
  | object name fields _ =>
    refine iff_of_true rfl fun k x hx => ?_
    cases hx
    exact .inl ⟨_, rfl⟩
  | union members ih =>
    rw [opened_union_iff, targetFaultsAt]
    by_cases hlayer : limit < layer
    · simp [hlayer, Nat.not_le.mpr hlayer]
    · simp +contextual [hlayer, Nat.not_lt.mp hlayer, memberFaultsAt_eq_nil_iff, ih]
  | _ =>
    refine iff_of_false (by simp [targetFaultsAt]) fun h => ?_
    simpa using h 0 _ (.refl _)

theorem mem_shapes_iff {d : Descriptor} {s : Shape} :
    s ∈ shapes d ↔ ∃ k, d.Opens k (.object s) := by
  induction d with
  | object name fields _ =>
    constructor
    · intro h
      have : s = ⟨name, fields⟩ := by simpa [shapes] using h
      exact ⟨0, this ▸ .refl _⟩
    · rintro ⟨k, h⟩
      cases h
      simp [shapes]
  | union members ih =>
    rw [shapes, memberShapes_eq_flatMap, List.mem_flatMap]
    constructor
    · rintro ⟨d, hd, hs⟩
      obtain ⟨k, hk⟩ := (ih d hd).mp hs
      exact ⟨k + 1, .step hd hk⟩
    · rintro ⟨k, hk⟩
      cases hk with
      | step hd hk => exact ⟨_, hd, (ih _ hd).mpr ⟨_, hk⟩⟩
  | _ =>
    refine iff_of_false (by simp [shapes]) ?_
    rintro ⟨k, h⟩
    cases h

theorem targetFaults_eq_nil_iff {limit : Nat} {isArray : Bool} {t : Descriptor} :
    targetFaults limit isArray t = [] ↔ t.Opened limit 1 ∧ shapes t ≠ [] := by
  rw [← @targetFaultsAt_eq_nil_iff limit 1 isArray, targetFaults]
  cases targetFaultsAt limit 1 isArray t with
  | nil => simp
  | cons r rest => simp

theorem faults_eq_nil_iff {limit : Nat} {root : Descriptor} :
    faults limit root = [] ↔
      (target root).2.Opened limit 1 ∧ shapes (target root).2 ≠ [] ∧
        ∀ s ∈ shapes (target root).2, s.Unambiguous ∧
          ∀ f ∈ s.fields, ∀ d ∈ f.declarations, d.Clean limit 0 := by
  have htarget := @targetFaults_eq_nil_iff limit (target root).1 (target root).2
  rw [← and_assoc, ← htarget, faults]
  cases targetFaults limit (target root).1 (target root).2 with
  | nil => simp [List.flatMap_eq_nil_iff, variantFaults, Shape.faults_eq_nil_iff]
  | cons r rest => simp

end Entity

end TypeSchema
