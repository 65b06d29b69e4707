import TypeSchema.Filter.Outcomes
import TypeSchema.Filter.Value

/-!
Calculation with values. Sums join strings and arrays and merge objects, differences take the items
of one array out of another, and products repeat strings and merge objects with all that is in them.
-/
namespace TypeSchema.Filter

inductive Operation where
  | add
  | sub
  | mul
  deriving DecidableEq, Repr

def mergeObjects (es fs : List (String × Value)) : List (String × Value) :=
  fs.foldl (fun done e => Keyed.insert e.1 e.2 done) es

/-- Merges objects that meet under one key, down to `levels`. -/
def mergeDeep : Nat → List (String × Value) → List (String × Value) → List (String × Value)
  | 0, es, fs => mergeObjects es fs
  | levels + 1, es, fs =>
    fs.foldl (fun done e =>
      match done.lookup e.1, e.2 with
      | some (.object inner), .object more =>
        Keyed.insert e.1 (.object (mergeDeep levels inner more)) done
      | _, v => Keyed.insert e.1 v done) es

/-- Nothing is left of a string that is not repeated at least once. -/
def repeatString (s : String) (n : Int) : Value :=
  if n ≤ 0 then .null
  else if s = "" then .string ""
  else .string (String.join (List.replicate n.toNat s))

def Operation.apply (op : Operation) (v w : Value) : Except Failure Value :=
  match op, v, w with
  | .add, .null, w => pure w
  | .add, v, .null => pure v
  | .add, .number p, .number q => pure (.number (p.add q))
  | .add, .string s, .string t => pure (.string (s ++ t))
  | .add, .array xs, .array ys => pure (.array (xs ++ ys))
  | .add, .object es, .object fs => pure (.object (mergeObjects es fs))
  | .sub, .number p, .number q => pure (.number (p.sub q))
  | .sub, .array xs, .array ys =>
    pure (.array (xs.filter fun x => !ys.any fun y => x.compare y == .eq))
  | .mul, .number p, .number q => pure (.number (p.mul q))
  | .mul, .string s, .number (.exact n) => pure (repeatString s n)
  | .mul, .number (.exact n), .string s => pure (repeatString s n)
  | .mul, .object es, .object fs =>
    pure (.object (mergeDeep (Value.nesting (.object es)) es fs))
  | _, _, _ => fail

def Value.opposite : Value → Except Failure Value
  | .number q => pure (.number q.neg)
  | _ => fail

end TypeSchema.Filter
