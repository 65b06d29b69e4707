/-!
Jobs that are done side by side and finish in any order. A result takes the place of its job; of the
failures only the one that is recorded first is kept.
-/
namespace TypeSchema.Command

/-- An order in which so many jobs finish. -/
structure Order (count : Nat) where
  jobs : List Nat
  perm : jobs.Perm (List.range count)

/-- The jobs that cost less finish sooner; of equal ones, the one that comes first. -/
def Order.byCost {α : Type} (cost : α → Nat) (as : List α) : Order as.length where
  jobs := ((as.map cost).zipIdx.mergeSort fun a b => a.1 ≤ b.1).map Prod.snd
  perm := by
    have hsort := (List.mergeSort_perm (as.map cost).zipIdx fun a b => a.1 ≤ b.1).map Prod.snd
    simpa [List.range_eq_range'] using hsort

structure Progress (ε α : Type) where
  /-- The jobs that have not finished. -/
  pending : List Nat
  /-- A place for the result of each job. -/
  results : List (Option α)
  failure : Option ε
  deriving DecidableEq, Repr

namespace Progress

variable {ε α : Type}

def start (count : Nat) : Progress ε α := ⟨List.range count, List.replicate count none, none⟩

def finish (p : Progress ε α) (i : Nat) : Except ε α → Progress ε α
  | .ok a => { p with pending := p.pending.erase i, results := p.results.set i (some a) }
  | .error e => { p with pending := p.pending.erase i, failure := p.failure.or (some e) }

/-- What the jobs come to: the failure, or the results in the order of the jobs. -/
def outcome (p : Progress ε α) : Except ε (List α) :=
  match p.failure with
  | some e => .error e
  | none => .ok (p.results.filterMap id)

inductive Step (jobs : List (Except ε α)) (i : Nat) : Progress ε α → Progress ε α → Prop where
  | finish {p : Progress ε α} {r : Except ε α} : i ∈ p.pending → jobs[i]? = some r →
    Step jobs i p (p.finish i r)

inductive Run (jobs : List (Except ε α)) : List Nat → Progress ε α → Prop where
  | start : Run jobs [] (start jobs.length)
  | step {done : List Nat} {i : Nat} {p q : Progress ε α} : Run jobs done p → Step jobs i p q →
    Run jobs (done ++ [i]) q

/-- Nothing is waited for any more: all jobs have finished, or one has failed. -/
def Ended (p : Progress ε α) : Prop := p.pending = [] ∨ p.failure ≠ none

def after (jobs : List (Except ε α)) (done : List Nat) : Progress ε α :=
  done.foldl (fun p i => (jobs[i]?).elim p (p.finish i)) (start jobs.length)

theorem after_concat {jobs : List (Except ε α)} {i : Nat} {r : Except ε α} (h : jobs[i]? = some r)
    (done : List Nat) : after jobs (done ++ [i]) = (after jobs done).finish i r := by
  simp [after, h]

end Progress

end TypeSchema.Command
