import TypeSchema.Proofs.FirstFault
import TypeSchema.Proofs.Height

/-!
The limit of nesting only cuts off. Under a greater limit the faults of a descriptor are those under
the smaller one, except that every node that was too deep gives way to what is found below it. So a
result that is not for the limit stays as it is, and a descriptor that compiles at all compiles at
the limits from its own depth on.
-/
namespace TypeSchema

/-- Said of a node that lies deeper than some limit. -/
def Rejection.TooDeep (r : Rejection) : Prop := ∃ limit, r.cause = .depthExceeded limit

/-- The first faults are the second ones, cut off at the limit. -/
inductive CutOff (limit : Nat) : List Rejection → List Rejection → Prop where
  | nil : CutOff limit [] []
  | fault {r : Rejection} {faults all : List Rejection} :
    ¬ r.TooDeep → CutOff limit faults all → CutOff limit (r :: faults) (r :: all)
  | limit (at_ : Location) {faults all : List Rejection} (below : List Rejection) :
    CutOff limit faults all → CutOff limit (⟨at_, .depthExceeded limit⟩ :: faults) (below ++ all)

namespace CutOff

variable {limit : Nat} {faults all faults' all' : List Rejection}

theorem refl (h : ∀ r ∈ faults, ¬ r.TooDeep) : CutOff limit faults faults := by
  induction faults with
  | nil => exact .nil
  | cons r faults ih => exact .fault (h r (by simp)) (ih fun r hr => h r (by simp [hr]))

theorem single (at_ : Location) (below : List Rejection) :
    CutOff limit [⟨at_, .depthExceeded limit⟩] below := by
  simpa using CutOff.limit at_ below .nil

theorem append (h : CutOff limit faults all) (h' : CutOff limit faults' all') :
    CutOff limit (faults ++ faults') (all ++ all') := by
  induction h with
  | nil => exact h'
  | fault hr _ ih => exact .fault hr ih
  | limit at_ below _ ih =>
    rw [List.append_assoc]
    exact .limit at_ below ih

theorem of_nil (h : CutOff limit faults []) (hne : faults ≠ []) (later : List Rejection) :
    CutOff limit faults later := by
  generalize hall : ([] : List Rejection) = all at h
  induction h with
  | nil => exact absurd rfl hne
  | fault => cases hall
  | @limit at_ faults all below h ih =>
    obtain ⟨rfl, rfl⟩ := List.append_eq_nil_iff.mp hall.symm
    simpa using CutOff.limit at_ later h

/-- Two stages, the second of which is only entered when the first has no fault. -/
theorem orElse (h : CutOff limit faults all) (h' : CutOff limit faults' all') :
    CutOff limit (if faults = [] then faults' else faults) (if all = [] then all' else all) := by
  by_cases hfaults : faults = []
  · subst hfaults
    cases h
    exact h'
  · by_cases hall : all = []
    · subst hall
      simpa [hfaults] using h.of_nil hfaults all'
    · simpa [hfaults, hall] using h

variable {α : Type} {a : α}

theorem verdict_eq (h : CutOff limit faults all)
    (hr : ∀ r, verdict faults a = .error r → ¬ r.TooDeep) : verdict all a = verdict faults a := by
  cases h with
  | nil => rfl
  | fault => rfl
  | limit => exact absurd ⟨limit, rfl⟩ (hr _ rfl)

theorem verdict_limit (h : CutOff limit faults []) (hne : faults ≠ []) :
    ∃ at_, verdict faults a = .error ⟨at_, .depthExceeded limit⟩ := by
  generalize hall : ([] : List Rejection) = all at h
  cases h with
  | nil => exact absurd rfl hne
  | fault => cases hall
  | @limit at_ => exact ⟨at_, rfl⟩

end CutOff

/-- A result that is not for the limit is the result at every greater limit. -/
def Stable {α : Type} (result : Nat → Compiled α) : Prop :=
  ∀ n m, n ≤ m → (∀ r, result n = .error r → ¬ r.TooDeep) → result m = result n

/-- The result is `a` at every limit from the least one on, and at every smaller one it is that this
limit is exceeded. -/
def HadFrom {α : Type} (least : Nat) (a : α) (result : Nat → Compiled α) : Prop :=
  ∀ n, (least ≤ n → result n = .ok a) ∧
    (n < least → ∃ at_, result n = .error ⟨at_, .depthExceeded n⟩)

section
variable {α : Type} {faults : Nat → List Rejection}

theorem stable_verdict (h : ∀ n m, n ≤ m → CutOff n (faults n) (faults m)) (a : α) :
    Stable fun n => verdict (faults n) a :=
  fun n m hnm hr => (h n m hnm).verdict_eq hr

theorem hadFrom_verdict (h : ∀ n m, n ≤ m → CutOff n (faults n) (faults m)) {least : Nat}
    (hleast : ∀ n, faults n = [] ↔ least ≤ n) (a : α) :
    HadFrom least a fun n => verdict (faults n) a := by
  intro n
  constructor
  · intro hn
    simp [(hleast n).mpr hn, verdict]
  · intro hn
    have hcut := h n least hn.le
    rw [(hleast least).mpr (Nat.le_refl _)] at hcut
    exact hcut.verdict_limit fun hnil => Nat.not_le.mpr hn ((hleast n).mp hnil)

end

theorem Member.fault?_not_tooDeep {at_ : Location} {m : Member} {r : Rejection}
    (h : m.fault? at_ = some r) : ¬ r.TooDeep := by
  unfold fault? at h
  split at h
  · cases h
  · split at h
    · cases h
    · cases h
      simp [Rejection.TooDeep]

theorem Enumeration.faults_not_tooDeep {at_ : Location} {e : Enumeration} {r : Rejection}
    (h : r ∈ e.faults at_) : ¬ r.TooDeep := by
  unfold Enumeration.faults at h
  split at h
  · obtain rfl := List.mem_singleton.mp h
    simp [Rejection.TooDeep]
  · obtain ⟨m, -, hm⟩ := List.mem_filterMap.mp h
    exact Member.fault?_not_tooDeep hm

namespace Descriptor

section
variable {limit limit' depth : Nat} {at_ : Location}

theorem memberFaultsAt_cutOff {ds : List Descriptor}
    (h : ∀ d ∈ ds, CutOff limit (faultsAt limit depth at_ d) (faultsAt limit' depth at_ d)) :
    CutOff limit (memberFaultsAt limit depth at_ ds) (memberFaultsAt limit' depth at_ ds) := by
  induction ds with
  | nil => exact .nil
  | cons d ds ih => exact (h d (by simp)).append (ih fun e he => h e (by simp [he]))

theorem positionFaultsAt_cutOff (at_ : Location) {ds : List Descriptor}
    (h : ∀ d ∈ ds, ∀ at_, CutOff limit (faultsAt limit depth at_ d) (faultsAt limit' depth at_ d))
    (i : Nat) :
    CutOff limit (positionFaultsAt limit depth at_ i ds)
      (positionFaultsAt limit' depth at_ i ds) := by
  induction ds generalizing i with
  | nil => exact .nil
  | cons d ds ih =>
    exact (h d (by simp) (at_.position i)).append (ih (fun e he => h e (by simp [he])) (i + 1))

theorem declarationFaultsAt_cutOff {ds : List Descriptor}
    (h : ∀ d ∈ ds, CutOff limit (faultsAt limit depth at_ d) (faultsAt limit' depth at_ d)) :
    CutOff limit (declarationFaultsAt limit depth at_ ds)
      (declarationFaultsAt limit' depth at_ ds) := by
  match ds, h with
  | [], _ => exact .refl (by simp [declarationFaultsAt, Rejection.TooDeep])
  | [d], h => exact h d (by simp)
  | d :: e :: more, _ => exact .refl (by simp [declarationFaultsAt, Rejection.TooDeep])

theorem fieldFaultsAt_cutOff (at_ : Location) (all : List Field) {fields : List Field}
    (h : ∀ f ∈ fields, ∀ d ∈ f.declarations, ∀ at_,
      CutOff limit (faultsAt limit depth at_ d) (faultsAt limit' depth at_ d))
    (seen : List String) :
    CutOff limit (fieldFaultsAt limit depth at_ all seen fields)
      (fieldFaultsAt limit' depth at_ all seen fields) := by
  induction fields generalizing seen with
  | nil => exact .nil
  | cons f fields ih =>
    obtain ⟨name, optional, declarations⟩ := f
    have hrest := ih (fun g hg => h g (by simp [hg])) (name :: seen)
    refine CutOff.append ?_ hrest
    by_cases hseen : seen.contains name = true
    · rw [if_pos hseen, if_pos hseen]
      exact .refl (by simp [Rejection.TooDeep])
    · rw [if_neg hseen, if_neg hseen]
      exact declarationFaultsAt_cutOff fun d hd => h _ (List.mem_cons_self ..) d hd _

theorem cutOff_of_le {d : Descriptor}
    (h : depth ≤ limit → CutOff limit (faultsAt limit depth at_ d) (faultsAt limit' depth at_ d)) :
    CutOff limit (faultsAt limit depth at_ d) (faultsAt limit' depth at_ d) := by
  rcases Nat.lt_or_ge limit depth with hlt | hle
  · rw [faultsAt_of_lt at_ d hlt]
    exact .single at_ _
  · exact h hle

end

theorem faultsAt_cutOff {limit limit' : Nat} (hlimit : limit ≤ limit') (depth : Nat)
    (at_ : Location) (d : Descriptor) :
    CutOff limit (faultsAt limit depth at_ d) (faultsAt limit' depth at_ d) := by
  induction d generalizing depth at_ with
  | object name fields ih =>
    refine cutOff_of_le fun hle => ?_
    rw [faultsAt_object hle, faultsAt_object (hle.trans hlimit)]
    exact fieldFaultsAt_cutOff at_ fields (fun f hf d hd at_ => ih f hf d hd (depth + 1) at_) []
  | array element ih =>
    refine cutOff_of_le fun hle => ?_
    rw [faultsAt_array hle, faultsAt_array (hle.trans hlimit)]
    exact ih (depth + 1) at_.element
  | tuple elements ih =>
    refine cutOff_of_le fun hle => ?_
    rw [faultsAt_tuple hle, faultsAt_tuple (hle.trans hlimit)]
    exact positionFaultsAt_cutOff at_ (fun d hd at_ => ih d hd (depth + 1) at_) 0
  | union members ih =>
    refine cutOff_of_le fun hle => ?_
    rw [faultsAt_union hle, faultsAt_union (hle.trans hlimit)]
    by_cases hm : members.isEmpty = true
    · rw [if_pos hm, if_pos hm]
      exact .refl (by simp [Rejection.TooDeep])
    · rw [if_neg hm, if_neg hm]
      exact memberFaultsAt_cutOff fun d hd => ih d hd (depth + 1) at_
  | enumeration e =>
    refine cutOff_of_le fun hle => ?_
    rw [faultsAt_enumeration hle, faultsAt_enumeration (hle.trans hlimit)]
    exact .refl fun r hr => Enumeration.faults_not_tooDeep hr
  | unsupported spelling =>
    refine cutOff_of_le fun hle => ?_
    rw [faultsAt, faultsAt, if_neg (Nat.not_lt.mpr hle), if_neg (Nat.not_lt.mpr (hle.trans hlimit))]
    exact .refl (by simp [Rejection.TooDeep])
  | _ =>
    refine cutOff_of_le fun hle => ?_
    rw [faultsAt, faultsAt, if_neg (Nat.not_lt.mpr hle), if_neg (Nat.not_lt.mpr (hle.trans hlimit))]
    exact .nil

end Descriptor

namespace Entity

open Descriptor

theorem misfit_not_tooDeep (isArray : Bool) (found : Descriptor) :
    ¬ (misfit isArray found).TooDeep := by
  cases isArray <;> simp [misfit, Rejection.TooDeep]

section
variable {limit limit' : Nat}

theorem memberFaultsAt_cutOff {layer : Nat} {isArray : Bool} {ds : List Descriptor}
    (h : ∀ d ∈ ds, CutOff limit (targetFaultsAt limit layer isArray d)
      (targetFaultsAt limit' layer isArray d)) :
    CutOff limit (memberFaultsAt limit layer isArray ds)
      (memberFaultsAt limit' layer isArray ds) := by
  induction ds with
  | nil => exact .nil
  | cons d ds ih => exact (h d (by simp)).append (ih fun e he => h e (by simp [he]))

theorem targetFaultsAt_cutOff (hlimit : limit ≤ limit') (layer : Nat) (isArray : Bool)
    (t : Descriptor) :
    CutOff limit (targetFaultsAt limit layer isArray t)
      (targetFaultsAt limit' layer isArray t) := by
  induction t generalizing layer with
  | object name fields _ => exact .nil
  | union members ih =>
    unfold targetFaultsAt
    by_cases hlayer : limit < layer
    · rw [if_pos hlayer]
      exact .single _ _
    · rw [if_neg hlayer, if_neg (by omega)]
      exact memberFaultsAt_cutOff fun d hd => ih d hd (layer + 1)
  | _ =>
    refine .refl fun r hr => ?_
    obtain rfl := List.mem_singleton.mp hr
    exact misfit_not_tooDeep _ _

theorem targetFaults_eq (limit : Nat) (isArray : Bool) (t : Descriptor) :
    targetFaults limit isArray t =
      if targetFaultsAt limit 1 isArray t = [] then
        if (shapes t).isEmpty then [misfit isArray t] else []
      else targetFaultsAt limit 1 isArray t := by
  unfold targetFaults
  cases targetFaultsAt limit 1 isArray t <;> rfl

theorem faults_eq (limit : Nat) (root : Descriptor) :
    faults limit root =
      if targetFaults limit (target root).1 (target root).2 = [] then
        (shapes (target root).2).flatMap (variantFaults limit)
      else targetFaults limit (target root).1 (target root).2 := by
  unfold faults
  cases targetFaults limit (target root).1 (target root).2 <;> rfl

theorem targetFaults_cutOff (hlimit : limit ≤ limit') (isArray : Bool) (t : Descriptor) :
    CutOff limit (targetFaults limit isArray t) (targetFaults limit' isArray t) := by
  rw [targetFaults_eq, targetFaults_eq]
  refine (targetFaultsAt_cutOff hlimit 1 isArray t).orElse (.refl fun r hr => ?_)
  split at hr
  · obtain rfl := List.mem_singleton.mp hr
    exact misfit_not_tooDeep _ _
  · simp at hr

theorem variantFaults_cutOff (hlimit : limit ≤ limit') (ss : List Shape) :
    CutOff limit (ss.flatMap (variantFaults limit)) (ss.flatMap (variantFaults limit')) := by
  induction ss with
  | nil => exact .nil
  | cons s ss ih =>
    exact (fieldFaultsAt_cutOff _ s.fields
      (fun f _ d _ at_ => d.faultsAt_cutOff hlimit 0 at_) []).append ih

theorem faults_cutOff (hlimit : limit ≤ limit') (root : Descriptor) :
    CutOff limit (faults limit root) (faults limit' root) := by
  rw [faults_eq, faults_eq]
  exact (targetFaults_cutOff hlimit _ _).orElse (variantFaults_cutOff hlimit _)

end

/-- The limit only ever cuts off, for an entity and for the alternatives of a type alike. What is
said at a limit, but that the limit is exceeded, is said at every greater one. What compiles at some
limit compiles from that on which has room for the layers of unions at the root and for the greatest
height of a declaration, or else for the height of the type. -/
theorem limit_only_cuts_off (root : Descriptor) :
    Stable (fun n => ofDescriptor n root) ∧
    (∀ n e, ofDescriptor n root = .ok e →
      HadFrom (max (layers (target root).2) (declarationHeight (target root).2)) e
        fun n => ofDescriptor n root) ∧
    ∀ at_, Stable (fun n => root.alternatives n at_) ∧
      ∀ n as, root.alternatives n at_ = .ok as →
        HadFrom root.height as fun n => root.alternatives n at_ := by
  have hentity (n m : Nat) (hnm : n ≤ m) := faults_cutOff hnm root
  have htype (at_ : Location) (n m : Nat) (hnm : n ≤ m) := root.faultsAt_cutOff hnm 0 at_
  simp only [ofDescriptor_eq_verdict, alternatives, alternativesAt_eq_verdict]
  refine ⟨stable_verdict hentity _, fun n e h => ?_, fun at_ =>
    ⟨stable_verdict (htype at_) _, fun n as h => ?_⟩⟩
  · obtain ⟨hfaults, rfl⟩ := verdict_eq_ok_iff.mp h
    refine hadFrom_verdict hentity (fun m => ?_) _
    rw [faults_eq_nil_iff_compilable]
    exact (faults_eq_nil_iff_compilable.mp hfaults).compilable_iff
  · obtain ⟨hfaults, rfl⟩ := verdict_eq_ok_iff.mp h
    refine hadFrom_verdict (htype at_) (fun m => ?_) _
    rw [faultsAt_eq_nil_iff]
    exact (faultsAt_eq_nil_iff.mp hfaults).clean_zero_iff

/-- Rows of nulls, in an object in a union: one layer of unions, two steps below the field, four
below the root. -/
theorem limit_only_cuts_off_rows :
    (ofDescriptor 9 (.union [.object ⟨none, [⟨"rows", false, [.array (.array .null)]⟩]⟩]) =
        .ok ⟨none, false, [⟨none, [("rows", ⟨false, [.array [.array [.null]]]⟩)]⟩]⟩ ∧
      ofDescriptor 12 (.union [.object ⟨none, [⟨"rows", false, [.array (.array .null)]⟩]⟩]) =
        ofDescriptor 9 (.union [.object ⟨none, [⟨"rows", false, [.array (.array .null)]⟩]⟩]) ∧
      HadFrom 2 ⟨none, false, [⟨none, [("rows", ⟨false, [.array [.array [.null]]]⟩)]⟩]⟩
        fun n => ofDescriptor n
          (.union [.object ⟨none, [⟨"rows", false, [.array (.array .null)]⟩]⟩])) ∧
    HadFrom 4 [.object [("rows", ⟨false, [.array [.array [.null]]]⟩)]]
      fun n => alternatives n ⟨"x", []⟩
        (.union [.object ⟨none, [⟨"rows", false, [.array (.array .null)]⟩]⟩]) := by
  have h := limit_only_cuts_off
    (.union [.object ⟨none, [⟨"rows", false, [.array (.array .null)]⟩]⟩])
  refine ⟨⟨rfl, h.1 9 12 (by decide) fun r hr => ?_, h.2.1 9 _ rfl⟩, (h.2.2 ⟨"x", []⟩).2 9 _ rfl⟩
  cases hr

end Entity

end TypeSchema
