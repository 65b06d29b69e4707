import TypeSchema.Filter.Quantity
import TypeSchema.Json.Document
import TypeSchema.Text

/-!
The tokens of a filter's text. Between tokens there may be blanks and comments.
-/
namespace TypeSchema.Filter

inductive Token where
  | word (name : String)
  | variable (name : String)
  | field (name : String)
  | number (value : Quantity)
  | string (value : String)
  | symbol (text : String)
  deriving DecidableEq, Repr

namespace Token

def isNameStart (c : Char) : Bool := c.isAlpha || c == '_'

def isNameRest (c : Char) : Bool := c.isAlphanum || c == '_'

/-- Symbols of two characters, which are taken before those of one. -/
def longSymbols : List (Char × Char) :=
  [('/', '/'), ('=', '='), ('!', '='), ('<', '='), ('>', '='), ('|', '='), ('.', '.')]

def shortSymbols : List Char :=
  ['.', '[', ']', '(', ')', '\x7b', '\x7d', ',', '|', ':', ';', '?', '=', '<', '>', '+', '-', '*']

def name (text : List Char) : String := String.ofList (text.takeWhile isNameRest)

/-- The rest of a string whose opening quotation mark has been passed, and the text after its end.
Any character may stand for itself; an escape names one character, so none names a surrogate. -/
def scanString : List Char → Option (List Char × List Char)
  | [] => none
  | '"' :: rest => some ([], rest)
  | '\\' :: 'u' :: a :: b :: c :: d :: rest => do
    let code ← Document.hex4? a b c d
    if Document.isLead code || Document.isTrail code then none
    else do
      let (chars, rest) ← scanString rest
      return (Char.ofNat code :: chars, rest)
  | '\\' :: e :: rest => do
    let code ← Document.simpleEscape? e
    let (chars, rest) ← scanString rest
    return (Char.ofNat code :: chars, rest)
  | c :: rest =>
    if c == '\\' then none
    else do
      let (chars, rest) ← scanString rest
      return (c :: chars, rest)

def scanNumber (text : List Char) : Option (Quantity × List Char) := do
  let whole := Document.digitValues text
  let (fraction, rest) ← Document.scanFraction (text.dropWhile Char.isDigit)
  let (exponent, rest) ← Document.scanExponent rest
  let written := String.ofList (text.take (text.length - rest.length))
  return (.ofNumeral written ⟨false, whole, fraction, exponent⟩, rest)

def scanOne (text : List Char) : Option (Token × List Char) :=
  match text with
  | [] => none
  | '"' :: rest =>
    (scanString rest).map fun (chars, rest) => (.string (String.ofList chars), rest)
  | c :: rest =>
    if c.isDigit then (scanNumber text).map fun (q, rest) => (.number q, rest)
    else if isNameStart c then some (.word (name text), rest.dropWhile isNameRest)
    else
      match c, rest with
      | '$', d :: _ =>
        if isNameStart d then some (.variable (name rest), rest.dropWhile isNameRest) else none
      | '.', d :: _ =>
        if isNameStart d then some (.field (name rest), rest.dropWhile isNameRest)
        else if d == '.' then some (.symbol "..", rest.drop 1)
        else some (.symbol ".", rest)
      | c, d :: more =>
        if longSymbols.contains (c, d) then some (.symbol (String.ofList [c, d]), more)
        else if shortSymbols.contains c then some (.symbol c.toString, rest)
        else none
      | c, [] => if shortSymbols.contains c then some (.symbol c.toString, []) else none

/-- The text after a comment, which ends with its line unless an odd number of backslashes ends the
line. The first argument says whether an odd number of them has just been passed. -/
def skipComment : Bool → List Char → List Char
  | _, [] => []
  | odd, '\r' :: '\n' :: rest => if odd then skipComment false rest else rest
  | odd, '\n' :: rest => if odd then skipComment false rest else rest
  | odd, c :: rest => skipComment (c == '\\' && !odd) rest

/-- The tokens of a text, of which there are at most as many as the first argument says. -/
def scanAll : Nat → List Char → Option (List Token)
  | 0, _ => none
  | n + 1, text =>
    match Text.skipBlanks text with
    | [] => some []
    | '#' :: rest => scanAll n (skipComment false rest)
    | text => do
      let (token, rest) ← scanOne text
      let tokens ← scanAll n rest
      return token :: tokens

def scan (text : String) : Option (List Token) := scanAll (text.length + 1) text.toList

end Token

end TypeSchema.Filter
