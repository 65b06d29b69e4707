import TypeSchema.Json.Number
import TypeSchema.Keyed

/-!
JSON values. An object is the list of its entries in order; a value is plain when no object in it
repeats a key. Two values are the same when their numbers are, and their objects have the same
entries in whatever order.
-/
namespace TypeSchema

inductive Json where
  | null
  | bool (value : Bool)
  | number (value : Number)
  | string (value : String)
  | array (items : List Json)
  | object (entries : List (String × Json))
  deriving Repr, Inhabited

namespace Json

mutual

/-- Equality of values: the order of the keys of an object does not matter. -/
def same : Json → Json → Bool
  | .null, .null => true
  | .bool a, .bool b => a == b
  | .number m, .number n => m.same n
  | .string s, .string t => s == t
  | .array xs, .array ys => sameItems xs ys
  | .object es, .object fs => es.length == fs.length && sameEntries es fs
  | _, _ => false

def sameItems : List Json → List Json → Bool
  | [], [] => true
  | x :: xs, y :: ys => same x y && sameItems xs ys
  | _, _ => false

def sameEntries : List (String × Json) → List (String × Json) → Bool
  | [], _ => true
  | (k, v) :: es, fs =>
    match fs.lookup k with
    | some w => same v w && sameEntries es fs
    | none => false

end

mutual

/-- The value with one entry per key: the first place and the last value of each. -/
def plain : Json → Json
  | .array xs => .array (plainItems xs)
  | .object es => .object (Keyed.ofList (plainEntries es))
  | v => v

def plainItems : List Json → List Json
  | [] => []
  | x :: xs => plain x :: plainItems xs

def plainEntries : List (String × Json) → List (String × Json)
  | [] => []
  | (k, v) :: es => (k, plain v) :: plainEntries es

end

mutual

def nesting : Json → Nat
  | .array xs => nestingItems xs + 1
  | .object es => nestingEntries es + 1
  | _ => 0

def nestingItems : List Json → Nat
  | [] => 0
  | x :: xs => max (nesting x) (nestingItems xs)

def nestingEntries : List (String × Json) → Nat
  | [] => 0
  | (_, v) :: es => max (nesting v) (nestingEntries es)

end

end Json

end TypeSchema
