/-!
The outcomes of a filter: a sequence in which a failure may take the place of an output. A failure
does not stop the outcomes after it, unless something asks for all outputs at once.
-/
namespace TypeSchema.Filter

inductive Failure where
  /-- An operation does not apply to a value, or the filter itself raises an error. -/
  | runtime
  /-- An output is not the text of a JSON value. -/
  | unreadable
  deriving DecidableEq, Repr

inductive Error where
  | malformed
  | undefined
  | failed (failure : Failure)
  deriving DecidableEq, Repr

def fail {α : Type} : Except Failure α := .error .runtime

abbrev Outcomes (α : Type) := List (Except Failure α)

namespace Outcomes

variable {α β γ : Type}

def ofList : Except Failure (List α) → Outcomes α
  | .ok as => as.map .ok
  | .error e => [.error e]

/-- Continues with each output; failures stay. -/
def andThen (outcomes : Outcomes α) (f : α → Outcomes β) : Outcomes β :=
  outcomes.flatMap fun
    | .ok a => f a
    | .error e => [.error e]

/-- Joins every outcome on the left with every outcome on the right, those on the left varying
slowest. Of two failures the left one counts, but without an outcome on the right there is none. -/
def pairWith (join : α → β → Except Failure γ) (lefts : Outcomes α) (rights : Outcomes β) :
    Outcomes γ :=
  lefts.flatMap fun left => rights.map fun right => do join (← left) (← right)

/-- Takes each output in turn to every value that the ones before it have led to; a failure ends
this. -/
def lead (step : α → β → Outcomes β) : Outcomes α → β → Outcomes β
  | [], b => [.ok b]
  | .ok a :: rest, b => (step a b).andThen (lead step rest)
  | .error e :: _, _ => [.error e]

def gather : Outcomes α → Except Failure (List α)
  | [] => pure []
  | r :: rest => do
    let a ← r
    let as ← gather rest
    return a :: as

def first : Outcomes α → Except Failure (Option α)
  | [] => pure none
  | r :: _ => some <$> r

/-- The outputs before the first failure. -/
def untilFailure : Outcomes α → Outcomes α
  | .ok a :: rest => .ok a :: untilFailure rest
  | _ => []

end Outcomes

end TypeSchema.Filter
