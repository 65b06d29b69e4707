import TypeSchema.Filter.Quantity
import TypeSchema.Json.Document
import TypeSchema.Json.Text

/-!
The values that filters work on. They are JSON values but for their numbers, and have a text, which
is not JSON where one of its numbers was not written as JSON writes them. They are ordered: null,
false, true, numbers, strings, arrays, objects. Objects are ordered by their keys, then by their
values in the order of the keys.
-/
namespace TypeSchema.Filter

inductive Value where
  | null
  | bool (value : Bool)
  | number (value : Quantity)
  | string (value : String)
  | array (items : List Value)
  | object (entries : List (String × Value))
  deriving Repr, Inhabited

namespace Value

def int (n : Int) : Value := .number (.exact n)

mutual

def ofJson : Json → Value
  | .null => .null
  | .bool b => .bool b
  | .number n => .number (.ofNumber n)
  | .string s => .string s
  | .array xs => .array (ofItems xs)
  | .object es => .object (ofEntries es)

def ofItems : List Json → List Value
  | [] => []
  | x :: xs => ofJson x :: ofItems xs

def ofEntries : List (String × Json) → List (String × Value)
  | [] => []
  | (k, v) :: es => (k, ofJson v) :: ofEntries es

end

mutual

def nesting : Value → Nat
  | .array xs => nestingItems xs + 1
  | .object es => nestingEntries es + 1
  | _ => 0

def nestingItems : List Value → Nat
  | [] => 0
  | x :: xs => max (nesting x) (nestingItems xs)

def nestingEntries : List (String × Value) → Nat
  | [] => 0
  | (_, v) :: es => max (nesting v) (nestingEntries es)

end

/-- Only null and false are not true. -/
def isTrue : Value → Bool
  | .null => false
  | .bool b => b
  | _ => true

/-! Text. -/

/-- The written form of a character in a string: there are short escapes for line breaks and the tab
alone among the controls. -/
def escape (c : Char) : List Char :=
  match c with
  | '"' => ['\\', '"']
  | '\\' => ['\\', '\\']
  | '\t' => ['\\', 't']
  | '\n' => ['\\', 'n']
  | '\r' => ['\\', 'r']
  | c =>
    if c.val < 32 then
      ['\\', 'u', '0', '0', Json.hexDigit (c.toNat / 16), Json.hexDigit (c.toNat % 16)]
    else [c]

def quote (s : String) : String := String.ofList ('"' :: (s.toList.flatMap escape ++ ['"']))

mutual

def text : Value → String
  | .null => "null"
  | .bool true => "true"
  | .bool false => "false"
  | .number q => q.text
  | .string s => quote s
  | .array xs => "[" ++ ",".intercalate (itemTexts xs) ++ "]"
  | .object es => "\x7b" ++ ",".intercalate (entryTexts es) ++ "\x7d"

def itemTexts : List Value → List String
  | [] => []
  | x :: xs => text x :: itemTexts xs

def entryTexts : List (String × Value) → List String
  | [] => []
  | (k, v) :: es => (quote k ++ ":" ++ text v) :: entryTexts es

end

/-- Strings stand for themselves. -/
def plainText : Value → String
  | .string s => s
  | v => v.text

def json? (v : Value) : Option Json := Json.parse? v.text

end Value

/-! ### The order of values -/

inductive Comparison where
  | eq
  | ne
  | lt
  | le
  | gt
  | ge
  deriving DecidableEq, Repr

namespace Value

def rank : Value → Nat
  | .null => 0
  | .bool false => 1
  | .bool true => 2
  | .number _ => 3
  | .string _ => 4
  | .array _ => 5
  | .object _ => 6

def sortedKeys (entries : List (String × Value)) : List String :=
  (Keyed.keys entries).mergeSort (· ≤ ·)

def valuesByKey (entries : List (String × Value)) : List Value :=
  (sortedKeys entries).map fun key => (entries.lookup key).getD .null

/-- Compares element by element, a list that ends first being less. -/
def compareLists {α : Type} (cmp : α → α → Ordering) : List α → List α → Ordering
  | [], [] => .eq
  | [], _ :: _ => .lt
  | _ :: _, [] => .gt
  | x :: xs, y :: ys => (cmp x y).then (compareLists cmp xs ys)

/-- Compares values in which no more than `levels` containers lie inside one another. -/
def compareWithin : Nat → Value → Value → Ordering
  | 0, v, w => Ord.compare v.rank w.rank
  | levels + 1, v, w =>
    match v, w with
    | .number p, .number q => p.compare q
    | .string s, .string t => Ord.compare s t
    | .array xs, .array ys => compareLists (compareWithin levels) xs ys
    | .object es, .object fs =>
      (compareLists Ord.compare (sortedKeys es) (sortedKeys fs)).then
        (compareLists (compareWithin levels) (valuesByKey es) (valuesByKey fs))
    | v, w => Ord.compare v.rank w.rank

def compare (v w : Value) : Ordering := compareWithin (v.nesting + 1) v w

end Value

def Comparison.holds (c : Comparison) (v w : Value) : Bool :=
  match c, v.compare w with
  | .eq, o => o == .eq
  | .ne, o => o != .eq
  | .lt, o => o == .lt
  | .le, o => o != .gt
  | .gt, o => o == .gt
  | .ge, o => o != .lt

end TypeSchema.Filter
