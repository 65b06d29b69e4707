import TypeSchema.Json.Basic

/-!
JSON texts. `Document.scan` turns a text into the tree that a reader going from left to right can
see: a part that is no JSON is a `fault`, and what encloses it is not closed. Nesting is unlimited
here. A string with an unpaired surrogate and a numeral beyond the binary64 range are well formed
but have no value. `Json.parse?` is the strict reading, of a whole text that is one value.
-/
namespace TypeSchema

/-- The key of an entry is any document, since a faulty text may have one that is no string. -/
inductive Document where
  | null
  | bool (value : Bool)
  | number (value : Option Number)
  | string (value : Option String)
  | array (items : List Document) (closed : Bool)
  | object (entries : List (Document × Document)) (closed : Bool)
  | fault
  deriving Repr, Inhabited

namespace Document

/-! Leaves of the grammar. -/

def isBlank (c : Char) : Bool := c == ' ' || c == '\t' || c == '\n' || c == '\r'

def skipBlanks (text : List Char) : List Char := text.dropWhile isBlank

def hexValue? (c : Char) : Option Nat :=
  if c.isDigit then some (c.toNat - 48)
  else if 'a' ≤ c ∧ c ≤ 'f' then some (c.toNat - 87)
  else if 'A' ≤ c ∧ c ≤ 'F' then some (c.toNat - 55)
  else none

def hex4? (a b c d : Char) : Option Nat := do
  let a ← hexValue? a
  let b ← hexValue? b
  let c ← hexValue? c
  let d ← hexValue? d
  return ((a * 16 + b) * 16 + c) * 16 + d

def simpleEscape? : Char → Option Nat
  | '"' => some 34
  | '\\' => some 92
  | '/' => some 47
  | 'b' => some 8
  | 'f' => some 12
  | 'n' => some 10
  | 'r' => some 13
  | 't' => some 9
  | _ => none

/-- The code points of a string whose opening quotation mark has been passed, and the text after its
end. Escapes may name surrogates. -/
def scanString : List Char → Option (List Nat × List Char)
  | [] => none
  | '"' :: rest => some ([], rest)
  | '\\' :: 'u' :: a :: b :: c :: d :: rest => do
    let code ← hex4? a b c d
    let (codes, rest) ← scanString rest
    return (code :: codes, rest)
  | '\\' :: e :: rest => do
    let code ← simpleEscape? e
    let (codes, rest) ← scanString rest
    return (code :: codes, rest)
  | c :: rest =>
    if c.toNat < 32 || c == '\\' then none
    else do
      let (codes, rest) ← scanString rest
      return (c.toNat :: codes, rest)

def isLead (code : Nat) : Bool := 0xD800 ≤ code && code < 0xDC00

def isTrail (code : Nat) : Bool := 0xDC00 ≤ code && code < 0xE000

/-- Joins each leading surrogate with the trailing one after it. -/
def joinSurrogates : List Nat → Option (List Char)
  | [] => some []
  | [code] => if isLead code || isTrail code then none else some [Char.ofNat code]
  | code :: next :: rest =>
    if isTrail code then none
    else if isLead code then
      if isTrail next then
        (joinSurrogates rest).map
          (Char.ofNat (0x10000 + (code - 0xD800) * 1024 + (next - 0xDC00)) :: ·)
      else none
    else (joinSurrogates (next :: rest)).map (Char.ofNat code :: ·)

def digitValues (text : List Char) : List Nat :=
  (text.takeWhile Char.isDigit).map (·.toNat - 48)

def scanFraction (text : List Char) : Option (List Nat × List Char) :=
  match text with
  | '.' :: rest =>
    match digitValues rest with
    | [] => none
    | digits => some (digits, rest.dropWhile Char.isDigit)
  | _ => some ([], text)

def scanExponentDigits (negative : Bool) (text : List Char) : Option (Option Int × List Char) :=
  match digitValues text with
  | [] => none
  | digits =>
    let n : Int := (digits.foldl (fun n d => 10 * n + d) 0 : Nat)
    some (some (if negative then -n else n), text.dropWhile Char.isDigit)

def scanExponent (text : List Char) : Option (Option Int × List Char) :=
  match text with
  | c :: rest =>
    if c == 'e' || c == 'E' then
      match rest with
      | '-' :: rest => scanExponentDigits true rest
      | '+' :: rest => scanExponentDigits false rest
      | _ => scanExponentDigits false rest
    else some (none, text)
  | [] => some (none, [])

/-- The digits before the point: a single zero, or a number that does not begin with one. -/
def scanWhole (text : List Char) : Option (List Nat × List Char) :=
  match digitValues text with
  | [] => none
  | 0 :: _ :: _ => none
  | digits => some (digits, text.dropWhile Char.isDigit)

def scanNumeral (text : List Char) : Option (Numeral × List Char) := do
  let (negative, text) := match text with
    | '-' :: rest => (true, rest)
    | _ => (false, text)
  let (whole, text) ← scanWhole text
  let (fraction, text) ← scanFraction text
  let (exponent, text) ← scanExponent text
  return (⟨negative, whole, fraction, exponent⟩, text)

/-! The tree. A scan that meets a fault leaves no text, so nothing is closed after it. The first
argument bounds the recursion. -/

mutual

def scanValue : Nat → List Char → Document × List Char
  | 0, _ => (.fault, [])
  | n + 1, text =>
    match skipBlanks text with
    | 'n' :: 'u' :: 'l' :: 'l' :: rest => (.null, rest)
    | 't' :: 'r' :: 'u' :: 'e' :: rest => (.bool true, rest)
    | 'f' :: 'a' :: 'l' :: 's' :: 'e' :: rest => (.bool false, rest)
    | '"' :: rest =>
      match scanString rest with
      | some (codes, rest) => (.string ((joinSurrogates codes).map String.ofList), rest)
      | none => (.fault, [])
    | '[' :: rest =>
      let (items, closed, rest) := scanItems n rest
      (.array items closed, rest)
    | '{' :: rest =>
      let (entries, closed, rest) := scanEntries n rest
      (.object entries closed, rest)
    | text =>
      match scanNumeral text with
      | some (numeral, rest) => (.number numeral.number?, rest)
      | none => (.fault, [])

/-- The items after an opening bracket, and whether they were closed. -/
def scanItems : Nat → List Char → List Document × Bool × List Char
  | 0, _ => ([], false, [])
  | n + 1, text =>
    match skipBlanks text with
    | ']' :: rest => ([], true, rest)
    | text =>
      let (item, rest) := scanValue n text
      let (items, closed, rest) := scanMoreItems n rest
      (item :: items, closed, rest)

def scanMoreItems : Nat → List Char → List Document × Bool × List Char
  | 0, _ => ([], false, [])
  | n + 1, text =>
    match skipBlanks text with
    | ']' :: rest => ([], true, rest)
    | ',' :: rest =>
      let (item, rest) := scanValue n rest
      let (items, closed, rest) := scanMoreItems n rest
      (item :: items, closed, rest)
    | _ => ([], false, [])

def scanEntry : Nat → List Char → (Document × Document) × List Char
  | 0, _ => ((.fault, .fault), [])
  | n + 1, text =>
    match scanValue n text with
    | (.string key, rest) =>
      match skipBlanks rest with
      | ':' :: rest =>
        let (value, rest) := scanValue n rest
        ((.string key, value), rest)
      | _ => ((.string key, .fault), [])
    | (key, _) => ((key, .fault), [])

def scanEntries : Nat → List Char → List (Document × Document) × Bool × List Char
  | 0, _ => ([], false, [])
  | n + 1, text =>
    match skipBlanks text with
    | '}' :: rest => ([], true, rest)
    | text =>
      let (entry, rest) := scanEntry n text
      let (entries, closed, rest) := scanMoreEntries n rest
      (entry :: entries, closed, rest)

def scanMoreEntries : Nat → List Char → List (Document × Document) × Bool × List Char
  | 0, _ => ([], false, [])
  | n + 1, text =>
    match skipBlanks text with
    | '}' :: rest => ([], true, rest)
    | ',' :: rest =>
      let (entry, rest) := scanEntry n rest
      let (entries, closed, rest) := scanMoreEntries n rest
      (entry :: entries, closed, rest)
    | _ => ([], false, [])

end

def scan (text : List Char) : Document × List Char := scanValue (4 * text.length + 4) text

/-! What a document says when all of it is well formed. -/

mutual

/-- Is the document free of faults, whether or not its strings and numerals have values? -/
def isComplete : Document → Bool
  | .array xs closed => closed && isCompleteItems xs
  | .object es closed => closed && isCompleteEntries es
  | .fault => false
  | _ => true

def isCompleteItems : List Document → Bool
  | [] => true
  | x :: xs => isComplete x && isCompleteItems xs

def isCompleteEntries : List (Document × Document) → Bool
  | [] => true
  | (k, v) :: es => isComplete k && isComplete v && isCompleteEntries es

end

mutual

def nesting : Document → Nat
  | .array xs _ => nestingItems xs + 1
  | .object es _ => nestingEntries es + 1
  | _ => 0

def nestingItems : List Document → Nat
  | [] => 0
  | x :: xs => max (nesting x) (nestingItems xs)

def nestingEntries : List (Document × Document) → Nat
  | [] => 0
  | (k, v) :: es => max (max (nesting k) (nesting v)) (nestingEntries es)

end

mutual

/-- The value that the document writes, its objects with every entry of the text. -/
def value? : Document → Option Json
  | .null => some .null
  | .bool b => some (.bool b)
  | .number n => n.map .number
  | .string s => s.map .string
  | .array xs closed => if closed then (values? xs).map .array else none
  | .object es closed => if closed then (entries? es).map .object else none
  | .fault => none

def values? : List Document → Option (List Json)
  | [] => some []
  | x :: xs => do
    let v ← value? x
    let vs ← values? xs
    return v :: vs

def entries? : List (Document × Document) → Option (List (String × Json))
  | [] => some []
  | (.string (some k), x) :: es => do
    let v ← value? x
    let rest ← entries? es
    return (k, v) :: rest
  | _ :: _ => none

end

def maxNesting : Nat := 127

/-- The value of a document found inside `outer` containers. -/
def json? (outer : Nat) (doc : Document) : Option Json :=
  doc.value?.filter (outer + ·.nesting ≤ maxNesting)

end Document

namespace Json

mutual

def toDocument : Json → Document
  | .null => .null
  | .bool b => .bool b
  | .number n => .number (some n)
  | .string s => .string (some s)
  | .array xs => .array (toDocuments xs) true
  | .object es => .object (toEntries es) true

def toDocuments : List Json → List Document
  | [] => []
  | x :: xs => toDocument x :: toDocuments xs

def toEntries : List (String × Json) → List (Document × Document)
  | [] => []
  | (k, v) :: es => (.string (some k), toDocument v) :: toEntries es

end

/-- A text that is one value between blanks, every repeated key merged into its first place. -/
def parse? (text : String) : Option Json :=
  match Document.scan text.toList with
  | (doc, rest) => if rest.all Document.isBlank then (doc.json? 0).map plain else none

mutual

theorem value?_toDocument (v : Json) : v.toDocument.value? = some v := by
  cases v with
  | array xs => simp [toDocument, Document.value?, values?_toDocuments xs]
  | object es => simp [toDocument, Document.value?, entries?_toEntries es]
  | _ => rfl

theorem values?_toDocuments (xs : List Json) : Document.values? (toDocuments xs) = some xs := by
  cases xs with
  | nil => rfl
  | cons x xs =>
    simp [toDocuments, Document.values?, value?_toDocument x, values?_toDocuments xs]

theorem entries?_toEntries (es : List (String × Json)) :
    Document.entries? (toEntries es) = some es := by
  cases es with
  | nil => rfl
  | cons e es =>
    obtain ⟨k, v⟩ := e
    simp [toEntries, Document.entries?, value?_toDocument v, entries?_toEntries es]

end

end Json

end TypeSchema
