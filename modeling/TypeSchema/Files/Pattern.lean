/-!
Patterns for names: `?` stands for one character, `*` for any number of them, and a set in brackets
for one character inside or, after an exclamation mark, outside of it. Two stars in place of a name
stand for any number of directories.
-/
namespace TypeSchema

inductive Pattern.Token where
  | char (c : Char)
  | anyChar
  | anySequence
  | anyDirectories
  /-- A character in one of the ranges, or in none of them. -/
  | among (inside : Bool) (ranges : List (Char × Char))
  deriving DecidableEq, Repr

abbrev Pattern := List Pattern.Token

namespace Pattern

inductive Fault where
  | stars
  | recursiveStars
  | range
  deriving DecidableEq, Repr

structure Error where
  position : Nat
  fault : Fault
  deriving DecidableEq, Repr

def Error.text (e : Error) : String :=
  "Pattern syntax error near position " ++ toString e.position ++ ": " ++
    match e.fault with
    | .stars => "wildcards are either regular `*` or recursive `**`"
    | .recursiveStars => "recursive wildcards must form a single path component"
    | .range => "invalid range pattern"

/-- Does a text hold a character that makes it a pattern? A brace does, though it stands for
itself. -/
def isPattern (text : String) : Bool :=
  text.toList.any fun c => c == '*' || c == '?' || c == '[' || c == '\x7b'

def ranges : List Char → List (Char × Char)
  | a :: '-' :: b :: rest => (a, b) :: ranges rest
  | c :: rest => (c, c) :: ranges rest
  | [] => []

/-- The set after an opening bracket, and how many characters it takes with its closing bracket. A
set has at least one character, so a bracket in first place does not close it. -/
def scanSet (rest : List Char) : Option (Token × Nat) :=
  let (inside, taken, body) := match rest with
    | '!' :: body => (false, 1, body)
    | body => (true, 0, body)
  match body with
  | [] => none
  | first :: more =>
    let tail := more.takeWhile (· != ']')
    if tail.length < more.length then
      some (.among inside (ranges (first :: tail)), taken + tail.length + 2)
    else none

/-- What two stars at a position make, given what stands before and after them. They take a slash
that follows. -/
def scanDirectories (position : Nat) (before : Option Char) (after : List Char) :
    Except Error Nat :=
  match before with
  | none | some '/' =>
    match after with
    | [] => pure 2
    | c :: _ => if c = '/' then pure 3 else .error ⟨position + 2, .recursiveStars⟩
  | some _ => .error ⟨position - 1, .recursiveStars⟩

/-- Reads tokens from a position on; `skip` characters belong to the token before. -/
def scan : Nat → Nat → Option Char → List Char → Except Error Pattern
  | _, _, _, [] => pure []
  | skip + 1, position, _, c :: rest => scan skip (position + 1) (some c) rest
  | 0, position, before, c :: rest => do
    let (token, more) ← (match c with
      | '?' => pure (Token.anyChar, 0)
      | '*' =>
        match rest.takeWhile (· == '*') with
        | [] => pure (.anySequence, 0)
        | [_] => do
          let taken ← scanDirectories position before (rest.drop 1)
          pure (.anyDirectories, taken - 1)
        | _ => .error ⟨position + 2, .stars⟩
      | '[' =>
        match scanSet rest with
        | some (token, taken) => pure (token, taken)
        | none => .error ⟨position, .range⟩
      | c => pure (.char c, 0))
    let tokens ← scan more (position + 1) (some c) rest
    return token :: tokens

def parse (text : String) : Except Error Pattern := scan 0 0 none text.toList

def someSuffix (matched : List Char → Bool) : List Char → Bool
  | [] => matched []
  | c :: rest => matched (c :: rest) || someSuffix matched rest

def isMatch : Pattern → List Char → Bool
  | [], name => name.isEmpty
  | .char c :: tokens, d :: name => c == d && isMatch tokens name
  | .anyChar :: tokens, _ :: name => isMatch tokens name
  | .among inside ranges :: tokens, c :: name =>
    (ranges.any fun r => r.1 ≤ c && c ≤ r.2) == inside && isMatch tokens name
  | .anySequence :: tokens, name => someSuffix (isMatch tokens) name
  | .anyDirectories :: tokens, name => someSuffix (isMatch tokens) name
  | _ :: _, [] => false

def isRecursive (p : Pattern) : Bool := p.contains .anyDirectories

def name? : Pattern → Option (List Char)
  | [] => some []
  | .char c :: tokens => (name? tokens).map (c :: ·)
  | _ => none

theorem isMatch_of_name? {p : Pattern} {name : List Char} (h : p.name? = some name) :
    p.isMatch name = true := by
  induction p generalizing name with
  | nil => simp_all [name?, isMatch]
  | cons t tokens ih =>
    cases t <;> simp [name?] at h
    obtain ⟨rest, hr, rfl⟩ := h
    simp [isMatch, ih hr]

end Pattern

end TypeSchema
