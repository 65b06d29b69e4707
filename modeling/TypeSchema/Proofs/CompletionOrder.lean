import Mathlib.Data.List.Basic
import Mathlib.Data.List.Induction
import TypeSchema.Command.Batch
import TypeSchema.Proofs.Except

/-!
Descriptors that are compiled side by side. However the jobs interleave, what has been recorded is
told by the order in which they have finished: every finished job has left its result in its place,
and the failure is that of the first in this order that failed. So whether a run succeeds, and with
what, does not depend on the order; which of several failures it ends with does.
-/
namespace TypeSchema.Command

namespace Progress

variable {ε α : Type} {jobs : List (Except ε α)} {done : List Nat} {i : Nat} {p q : Progress ε α}

def failureOf (jobs : List (Except ε α)) (i : Nat) : Option ε :=
  match jobs[i]? with
  | some (.error e) => some e
  | _ => none

theorem failureOf_eq_some_iff {e : ε} : failureOf jobs i = some e ↔ jobs[i]? = some (.error e) := by
  unfold failureOf
  split <;> simp_all

theorem failureOf_ok (as : List α) (i : Nat) :
    failureOf (as.map (.ok : α → Except ε α)) i = none := by
  unfold failureOf
  split <;> simp_all

def firstFailure (jobs : List (Except ε α)) (order : List Nat) : Option ε :=
  order.findSome? (failureOf jobs)

theorem firstFailure_eq_some {order : List Nat} {e : ε} (h : firstFailure jobs order = some e) :
    ∃ i ∈ order, failureOf jobs i = some e :=
  List.exists_of_findSome?_eq_some h

theorem firstFailure_ne_none {order : List Nat} {e : ε} (hi : i ∈ order)
    (he : failureOf jobs i = some e) : firstFailure jobs order ≠ none := by
  intro hnone
  simp [List.findSome?_eq_none_iff.mp hnone i hi] at he

/-- The order of the jobs does not matter where no two of them fail. -/
theorem firstFailure_of_unique
    (hunique : ∀ i j, failureOf jobs i ≠ none → failureOf jobs j ≠ none → i = j)
    {order order' : List Nat} (hsubset : order ⊆ order') {e : ε}
    (h : firstFailure jobs order = some e) : firstFailure jobs order' = some e := by
  obtain ⟨i, hi, he⟩ := firstFailure_eq_some h
  obtain ⟨f, hf⟩ := Option.ne_none_iff_exists'.mp (firstFailure_ne_none (hsubset hi) he)
  obtain ⟨j, -, hj⟩ := firstFailure_eq_some hf
  obtain rfl := hunique i j (by simp [he]) (by simp [hj])
  rw [hf, ← hj, he]

theorem pending_finish (p : Progress ε α) (i : Nat) (r : Except ε α) :
    (p.finish i r).pending = p.pending.erase i := by
  cases r <;> rfl

/-- What is recorded once these jobs have finished, in this order. -/
structure Recorded (jobs : List (Except ε α)) (done : List Nat) (p : Progress ε α) : Prop where
  perm : (done ++ p.pending).Perm (List.range jobs.length)
  length_results : p.results.length = jobs.length
  results : ∀ i r, jobs[i]? = some r → p.results[i]? = some (if i ∈ done then r.toOption else none)
  failure : p.failure = firstFailure jobs done

theorem recorded_start (jobs : List (Except ε α)) : Recorded jobs [] (start jobs.length) where
  perm := List.Perm.refl _
  length_results := List.length_replicate
  results i r h := by
    obtain ⟨hi, -⟩ := List.getElem?_eq_some_iff.mp h
    simp [start, hi]
  failure := rfl

theorem Recorded.step (h : Recorded jobs done p) (hstep : Step jobs i p q) :
    Recorded jobs (done ++ [i]) q := by
  cases hstep with
  | @finish r hi hr =>
    obtain ⟨hlt, -⟩ := List.getElem?_eq_some_iff.mp hr
    have hperm : (done ++ [i] ++ (p.finish i r).pending).Perm (List.range jobs.length) := by
      rw [pending_finish, List.append_assoc, List.singleton_append]
      exact ((List.perm_cons_erase hi).symm.append_left done).trans h.perm
    have hlater (j : Nat) (hj : j ≠ i) : j ∈ done ++ [i] ↔ j ∈ done := by simp [hj]
    cases r with
    | ok a =>
      refine ⟨hperm, by simp [finish, h.length_results], fun j r hj => ?_, ?_⟩
      · by_cases hji : j = i
        · subst hji
          obtain rfl : r = .ok a := Option.some.inj (hj.symm.trans hr)
          simp [finish, h.length_results, hlt, Except.toOption]
        · simp [finish, List.getElem?_set_ne (Ne.symm hji), h.results j r hj, hji]
      · simp [finish, firstFailure, List.findSome?_append, h.failure, failureOf, hr]
    | error e =>
      refine ⟨hperm, h.length_results, fun j r hj => ?_, ?_⟩
      · by_cases hji : j = i
        · subst hji
          obtain rfl : r = .error e := Option.some.inj (hj.symm.trans hr)
          simp [finish, h.results j _ hr, Except.toOption]
        · simp [finish, h.results j r hj, hji]
      · simp [finish, firstFailure, List.findSome?_append, h.failure, failureOf, hr]

theorem Run.recorded (h : Run jobs done p) : Recorded jobs done p := by
  induction h with
  | start => exact recorded_start jobs
  | step _ hstep ih => exact ih.step hstep

theorem Recorded.outcome_eq_error_iff (h : Recorded jobs done p) {e : ε} :
    p.outcome = .error e ↔ firstFailure jobs done = some e := by
  rw [← h.failure, outcome]
  cases p.failure <;> simp

theorem Recorded.perm_of_ended (h : Recorded jobs done p) (hended : p.Ended)
    (hfailure : p.failure = none) : done.Perm (List.range jobs.length) := by
  have hpending : p.pending = [] := hended.resolve_right (not_not_intro hfailure)
  simpa [hpending] using h.perm

theorem Recorded.results_eq (h : Recorded jobs done p)
    (hdone : done.Perm (List.range jobs.length)) :
    p.results = jobs.map Except.toOption := by
  refine List.ext_getElem? fun i => ?_
  rw [List.getElem?_map]
  cases hr : jobs[i]? with
  | none =>
    rw [List.getElem?_eq_none_iff] at hr
    simp [h.length_results, hr]
  | some r =>
    obtain ⟨hi, -⟩ := List.getElem?_eq_some_iff.mp hr
    have hmem : i ∈ done := hdone.mem_iff.mpr (List.mem_range.mpr hi)
    simp [h.results i r hr, hmem]

/-- A run that has ended succeeds exactly if every job does, with all results in the order of the
jobs. -/
theorem Recorded.outcome_eq_ok_iff (h : Recorded jobs done p) (hended : p.Ended) {as : List α} :
    p.outcome = .ok as ↔ jobs = as.map .ok := by
  constructor
  · intro hok
    have hfailure : p.failure = none := by
      unfold outcome at hok
      split at hok <;> simp_all
    have hdone := h.perm_of_ended hended hfailure
    have hresults : jobs.filterMap Except.toOption = as := by
      simpa [outcome, hfailure, h.results_eq hdone, List.filterMap_map] using hok
    have hall (r : Except ε α) (hr : r ∈ jobs) : r.toOption.map .ok = some r := by
      obtain ⟨i, hi, rfl⟩ := List.getElem_of_mem hr
      have hnone : failureOf jobs i = none :=
        List.findSome?_eq_none_iff.mp (h.failure.symm.trans hfailure) i
          (hdone.mem_iff.mpr (List.mem_range.mpr hi))
      cases hri : jobs[i] with
      | ok a => rfl
      | error e => simp [failureOf, List.getElem?_eq_getElem hi, hri] at hnone
    rw [← hresults, List.map_filterMap, List.filterMap_congr hall, List.filterMap_some]
  · rintro rfl
    have hfailure : p.failure = none := by
      rw [h.failure, firstFailure, List.findSome?_eq_none_iff]
      exact fun i _ => failureOf_ok as i
    have hresults := h.results_eq (h.perm_of_ended hended hfailure)
    simp [outcome, hfailure, hresults, Function.comp_def, Except.toOption, List.filterMap_map]

theorem Recorded.firstFailure_iff_of_unique (h : Recorded jobs done p) (hended : p.Ended)
    (hunique : ∀ i j, failureOf jobs i ≠ none → failureOf jobs j ≠ none → i = j) {e : ε} :
    firstFailure jobs done = some e ↔ firstFailure jobs (List.range jobs.length) = some e := by
  have hsubset : done ⊆ List.range jobs.length :=
    fun i hi => h.perm.mem_iff.mp (List.mem_append_left _ hi)
  refine ⟨firstFailure_of_unique hunique hsubset, fun he => ?_⟩
  obtain ⟨i, hi, hfails⟩ := firstFailure_eq_some he
  cases hf : firstFailure jobs done with
  | none =>
    have hdone := h.perm_of_ended hended (h.failure.trans hf)
    exact absurd hf (firstFailure_ne_none (hdone.mem_iff.mpr hi) hfails)
  | some f => rw [← firstFailure_of_unique hunique hsubset hf, he]

/-! ### Every order is the order of a run -/

theorem run_after (rest : List Nat) (h : (done ++ rest).Perm (List.range jobs.length)) :
    Run jobs done (after jobs done) := by
  induction done using List.reverseRecOn generalizing rest with
  | nil => exact .start
  | append_singleton done i ih =>
    rw [List.append_assoc, List.singleton_append] at h
    have hrun := ih (i :: rest) h
    have hpending : (after jobs done).pending.Perm (i :: rest) :=
      (List.perm_append_left_iff done).mp (hrun.recorded.perm.trans h.symm)
    have hi : i ∈ (after jobs done).pending := hpending.mem_iff.mpr (List.mem_cons_self ..)
    have hlt : i < jobs.length := List.mem_range.mp (h.mem_iff.mp (by simp))
    have hr := List.getElem?_eq_getElem hlt
    rw [after_concat hr]
    exact .step hrun (.finish hi hr)

theorem pending_after (h : done.Perm (List.range jobs.length)) :
    (after jobs done).pending = [] := by
  have hrun : Run jobs done (after jobs done) := run_after [] (by simpa using h)
  have hperm : (done ++ (after jobs done).pending).Perm (done ++ []) := by
    simpa using hrun.recorded.perm.trans h.symm
  exact ((List.perm_append_left_iff done).mp hperm).eq_nil

theorem run_firstFailure {i : Nat} {e : ε} (h : failureOf jobs i = some e) :
    ∃ order p, Run jobs order p ∧ p.pending = [] ∧ firstFailure jobs order = some e := by
  obtain ⟨hi, -⟩ := List.getElem?_eq_some_iff.mp (failureOf_eq_some_iff.mp h)
  have hperm : (i :: (List.range jobs.length).erase i).Perm (List.range jobs.length) :=
    (List.perm_cons_erase (List.mem_range.mpr hi)).symm
  exact ⟨_, _, run_after [] (by simpa using hperm), pending_after hperm,
    by simp [firstFailure, h]⟩

end Progress

open Progress

theorem combine_eq_error_iff {made : List Json} {e : Failure} :
    combine made = .error e ↔ made = [] ∧ e = .nothingRead := by
  match made with
  | [] => simp [combine, eq_comm]
  | [v] => simp [combine, pure, Except.pure]
  | v :: w :: vs => simp [combine, pure, Except.pure]

/-- What a run that has ended comes to. -/
def Progress.emitted (p : Progress Failure Json) : Except Failure Json := p.outcome >>= combine

def Product.jobs (product : Product) (s : Settings) (docs : List Loaded) :
    List (Except Failure Json) :=
  docs.map (product.makeLoaded s)

section
variable {jobs : List (Except Failure Json)} {done : List Nat} {p : Progress Failure Json}
variable (hrun : Run jobs done p) (hended : p.Ended)
include hrun hended

theorem Progress.emitted_eq_ok_iff {v : Json} :
    p.emitted = .ok v ↔ ∃ made : List Json, jobs = made.map .ok ∧ combine made = .ok v := by
  have houtcome {made : List Json} : p.outcome = .ok made ↔ jobs = made.map .ok :=
    hrun.recorded.outcome_eq_ok_iff hended
  simp only [emitted, Except.bind_eq_ok_iff, houtcome]

theorem Progress.emitted_eq_error_iff {e : Failure} :
    p.emitted = .error e ↔ jobs = [] ∧ e = .nothingRead ∨ firstFailure jobs done = some e := by
  have houtcome {made : List Json} : p.outcome = .ok made ↔ jobs = made.map .ok :=
    hrun.recorded.outcome_eq_ok_iff hended
  rw [emitted, Except.bind_eq_error_iff, hrun.recorded.outcome_eq_error_iff, or_comm]
  simp only [houtcome, combine_eq_error_iff]
  simp

end

/-- Descriptors are compiled in any two orders. The runs emit the same value or both fail; a run
fails for the first in its own order that fails, so with at most one failure they come to the same,
whatever comes first in the batch; and each of several failures is what some run ends with. -/
theorem emitted_of_any_order {product : Product} {s : Settings} {docs : List Loaded}
    {done done' : List Nat} {p q : Progress Failure Json} (hp : Run (product.jobs s docs) done p)
    (hpended : p.Ended) (hq : Run (product.jobs s docs) done' q) (hqended : q.Ended) :
    (∀ v, p.emitted = .ok v ↔ q.emitted = .ok v) ∧
      (∀ e, p.emitted = .error e ↔
        docs = [] ∧ e = .nothingRead ∨ firstFailure (product.jobs s docs) done = some e) ∧
      ((∀ i j, failureOf (product.jobs s docs) i ≠ none →
          failureOf (product.jobs s docs) j ≠ none → i = j) →
        p.emitted = q.emitted ∧ ∀ e, p.emitted = .error e ↔
          docs = [] ∧ e = .nothingRead ∨
            firstFailure (product.jobs s docs) (List.range docs.length) = some e) ∧
      ∀ i e, failureOf (product.jobs s docs) i = some e →
        ∃ order r, Run (product.jobs s docs) order r ∧ r.pending = [] ∧ r.emitted = .error e := by
  have hnil : product.jobs s docs = [] ↔ docs = [] := List.map_eq_nil_iff
  have hlength : (product.jobs s docs).length = docs.length := List.length_map _
  have herror {done : List Nat} {p : Progress Failure Json}
      (hrun : Run (product.jobs s docs) done p) (hended : p.Ended) (e : Failure) :
      p.emitted = .error e ↔
        docs = [] ∧ e = .nothingRead ∨ firstFailure (product.jobs s docs) done = some e := by
    rw [Progress.emitted_eq_error_iff hrun hended, hnil]
  refine ⟨fun v => ?_, herror hp hpended, fun hunique => ?_, fun i e he => ?_⟩
  · rw [Progress.emitted_eq_ok_iff hp hpended, Progress.emitted_eq_ok_iff hq hqended]
  · have hfirst {done : List Nat} {p : Progress Failure Json}
        (hrun : Run (product.jobs s docs) done p) (hended : p.Ended) (e : Failure) :
        p.emitted = .error e ↔ docs = [] ∧ e = .nothingRead ∨
          firstFailure (product.jobs s docs) (List.range docs.length) = some e := by
      rw [herror hrun hended, hrun.recorded.firstFailure_iff_of_unique hended hunique, hlength]
    refine ⟨?_, hfirst hp hpended⟩
    cases h : p.emitted with
    | ok v =>
      have hok := (Progress.emitted_eq_ok_iff hp hpended).mp h
      exact ((Progress.emitted_eq_ok_iff hq hqended).mpr hok).symm
    | error e => exact ((hfirst hq hqended e).mpr ((hfirst hp hpended e).mp h)).symm
  · obtain ⟨order, r, hr, hpending, hfirst⟩ := run_firstFailure he
    exact ⟨order, r, hr, hpending, (herror hr (.inl hpending) e).mpr (.inr hfirst)⟩

/-- Of three descriptors the one in the middle fails: after the others, or before anything else. -/
theorem emitted_of_any_order_middle :
    let docs : List Loaded := [⟨"a.json", .object ⟨none, []⟩⟩, ⟨"b.json", .wildcard⟩,
      ⟨"c.json", .object ⟨some "C", []⟩⟩]
    let jobs := Product.jobs .entity {} docs
    let p := after jobs [2, 0, 1]
    let q := after jobs [1]
    Run jobs [2, 0, 1] p ∧ p.Ended ∧ Run jobs [1] q ∧ q.Ended ∧
      (∀ i j, failureOf jobs i ≠ none → failureOf jobs j ≠ none → i = j) ∧
      p.emitted = q.emitted ∧
      q.emitted =
        .error (.rejected .entity "b.json" ⟨⟨"<root>", []⟩, .unsupportedRoot "wildcard"⟩) := by
  intro docs jobs p q
  have hp : Run jobs [2, 0, 1] p := run_after [] (by decide)
  have hq : Run jobs [1] q := run_after [0, 2] (by decide)
  have hpended : p.Ended := .inl rfl
  have hqended : q.Ended := .inr (Option.some_ne_none _)
  have hone (i : Nat) (hi : failureOf jobs i ≠ none) : i = 1 := by
    match i with
    | 1 => rfl
    | 0 | 2 | _ + 3 => exact absurd rfl hi
  have hunique (i j : Nat) (hi : failureOf jobs i ≠ none) (hj : failureOf jobs j ≠ none) :
      i = j := (hone i hi).trans (hone j hj).symm
  exact ⟨hp, hpended, hq, hqended, hunique,
    ((emitted_of_any_order hp hpended hq hqended).2.2.1 hunique).1, rfl⟩

/-- Two descriptors that fail are two ways for a batch to end. -/
theorem emitted_depends_on_order :
    let docs : List Loaded :=
      [⟨"a.json#0", .object ⟨some "Slow", [⟨"late", false, [.unsupported "late"]⟩]⟩⟩,
        ⟨"a.json#1", .object ⟨some "Quick", [⟨"soon", false, [.unsupported "soon"]⟩]⟩⟩]
    let jobs := Product.jobs .schema {} docs
    ∃ p q, Run jobs [0, 1] p ∧ p.pending = [] ∧ Run jobs [1, 0] q ∧ q.pending = [] ∧
      p.emitted = .error (.rejected .schema "a.json#0"
        ⟨⟨"Slow", [.field "late"]⟩, .unsupportedType "late"⟩) ∧
      q.emitted = .error (.rejected .schema "a.json#1"
        ⟨⟨"Quick", [.field "soon"]⟩, .unsupportedType "soon"⟩) ∧
      p.emitted ≠ q.emitted := by
  intro docs jobs
  refine ⟨after jobs [0, 1], after jobs [1, 0], run_after [] (by decide), rfl,
    run_after [] (by decide), rfl, rfl, rfl, ?_⟩
  intro h
  have hsource : "a.json#0" = "a.json#1" := (Failure.rejected.inj (Except.error.inj h)).2.1
  exact absurd hsource (by decide)

end TypeSchema.Command
