import TypeSchema.Filter.Arithmetic

/-!
Places in a value: where they are, what stands there, and putting something else there.
-/
namespace TypeSchema.Filter

/-- All that a value holds, one entry or item, or a range of items. A bound that is left out is the
end of the value. -/
inductive Place where
  | all
  | index (key : Value)
  | slice (lower upper : Option Value)
  deriving Repr

namespace Value

def position? (length : Nat) (i : Int) : Option Nat :=
  let j := if i < 0 then length + i else i
  if 0 ≤ j && j < length then some j.toNat else none

/-- A bound of a slice: one outside the value is moved to its end. -/
def bound (length default : Nat) : Option Value → Except Failure Nat
  | none => pure default
  | some (.number (.exact i)) => pure (if i < 0 then (length + i).toNat else min i.toNat length)
  | some _ => fail

def bounds (length : Nat) (lower upper : Option Value) : Except Failure (Nat × Nat) := do
  return (← bound length 0 lower, ← bound length length upper)

def items : Value → Except Failure (List Value)
  | .array xs => pure xs
  | .object es => pure (es.map Prod.snd)
  | _ => fail

def index : Value → Value → Except Failure Value
  | .object es, .string key => pure ((es.lookup key).getD .null)
  | .array xs, .number (.exact i) => pure (((position? xs.length i).bind (xs[·]?)).getD .null)
  | _, _ => fail

def slice (v : Value) (lower upper : Option Value) : Except Failure Value :=
  match v with
  | .array xs => do
    let (first, last) ← bounds xs.length lower upper
    return .array ((xs.take last).drop first)
  | .string s => do
    let (first, last) ← bounds s.length lower upper
    return .string (String.ofList ((s.toList.take last).drop first))
  | _ => fail

/-! What functions say about a value as a whole. -/

def has : Value → Value → Except Failure Bool
  | .object es, .string key => pure ((Keyed.keys es).contains key)
  | .array xs, .number (.exact i) => if 0 ≤ i then pure (i < xs.length) else fail
  | _, _ => fail

def length : Value → Except Failure Value
  | .null => pure (int 0)
  | .bool _ => fail
  | .number q => pure (.number q.abs)
  | .string s => pure (int s.length)
  | .array xs => pure (int xs.length)
  | .object es => pure (int es.length)

def positions (xs : List Value) : List Value := (List.range xs.length).map fun (i : Nat) => int i

def keys : Value → Except Failure Value
  | .object es => pure (.array ((sortedKeys es).map .string))
  | .array xs => pure (.array (positions xs))
  | _ => fail

def entry (key value : Value) : Value := .object [("key", key), ("value", value)]

def entries : Value → Except Failure Value
  | .object es => pure (.array (es.map fun e => entry (.string e.1) e.2))
  | .array xs => pure (.array (((positions xs).zip xs).map fun e => entry e.1 e.2))
  | _ => fail

def reverse : Value → Except Failure Value
  | .array xs => pure (.array xs.reverse)
  | _ => fail

mutual

def leaves : Value → List Value
  | .array xs => leavesOf xs
  | v => [v]

def leavesOf : List Value → List Value
  | [] => []
  | x :: xs => leaves x ++ leavesOf xs

end

end Value

/-- Does an outcome decide against an alternative? A failure does. -/
def countsAsTrue : Except Failure Value → Bool
  | .ok v => v.isTrue
  | .error _ => true

namespace Place

def valuesIn : Place → Value → Outcomes Value
  | .all, v => .ofList v.items
  | .index key, v => [v.index key]
  | .slice lower upper, v => [v.slice lower upper]

/-- Changes everything in a value: any number of items may take the place of one, but an entry gets
the first new value or is left out. -/
def changeAll (change : Value → Outcomes Value) : Value → Except Failure (Option Value)
  | .array xs => some <$> .array <$> Outcomes.gather (xs.flatMap change)
  | .object es => do
    let changed ← es.mapM fun (k, v) => do
      return (← Outcomes.first (change v)).map fun w => (k, w)
    return some (.object (changed.filterMap id))
  | _ => pure none

/-- Removes an entry by moving the last one to its place. -/
def removeEntry (key : String) (entries : List (String × Value)) : List (String × Value) :=
  let before := entries.takeWhile (·.1 != key)
  match entries.dropWhile (·.1 != key) with
  | [] => before
  | _ :: after =>
    match after.getLast? with
    | none => before
    | some last => before ++ last :: after.dropLast

/-- The first new value takes the place of the old one, which goes when there is none. -/
def changeIndex (change : Value → Outcomes Value) (v key : Value) :
    Except Failure (Option Value) :=
  match v, key with
  | .object es, .string key => do
    match es.lookup key, ← Outcomes.first (change ((es.lookup key).getD .null)) with
    | _, some w => return some (.object (Keyed.insert key w es))
    | some _, none => return some (.object (removeEntry key es))
    | none, none => return some v
  | .array xs, .number (.exact i) =>
    match Value.position? xs.length i with
    | none => pure none
    | some j => do
      match ← Outcomes.first (change ((xs[j]?).getD .null)) with
      | some w => return some (.array (xs.set j w))
      | none => return some (.array (xs.eraseIdx j))
  | _, _ => pure none

def changeSlice (change : Value → Outcomes Value) (v : Value) (lower upper : Option Value) :
    Except Failure (Option Value) :=
  match v with
  | .array xs =>
    match Value.bounds xs.length lower upper with
    | .error _ => pure none
    | .ok (first, last) => do
      let ys ← match ← Outcomes.first (change (.array ((xs.take last).drop first))) with
        | some (.array ys) => pure ys
        | some _ => fail
        | none => pure []
      return some (.array (xs.take first ++ ys ++ xs.drop (max first last)))
  | _ => pure none

def change? (change : Value → Outcomes Value) (v : Value) : Place → Except Failure (Option Value)
  | .all => changeAll change v
  | .index key => changeIndex change v key
  | .slice lower upper => changeSlice change v lower upper

end Place

/-- Places inside one another, each with a mark that it may be missing. -/
abbrev Route := List (Place × Bool)

namespace Route

def follow : Route → Value → Outcomes Value
  | [], v => [.ok v]
  | (place, optional) :: rest, v =>
    let found := place.valuesIn v
    Outcomes.andThen (if optional then found.filter Except.isOk else found) (follow rest)

/-- Changes the values at the end of a route. A value without a place that may be missing stays as
it is. -/
def change : Route → (Value → Outcomes Value) → Value → Outcomes Value
  | [], f, v => f v
  | (place, optional) :: rest, f, v =>
    match place.change? (change rest f) v with
    | .ok (some w) => [.ok w]
    | .ok none => [if optional then .ok v else fail]
    | .error e => [.error e]

end Route

end TypeSchema.Filter
