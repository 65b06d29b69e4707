import TypeSchema.Filter.Basic
import TypeSchema.Filter.Token

/-!
The written form of filters. From loosest to tightest the operators are the pipe, the comma,
assignments, the alternative, `or`, `and`, the comparisons, sums and products.
-/
namespace TypeSchema.Filter

/-- The words that begin a construct of their own. All other words call functions. -/
def keywords : List String := ["def", "reduce", "foreach", "try", "label", "break"]

def directives : List String := ["import", "include"]

/-- How tightly a binary operator binds, whether it groups to the right, and what it builds. -/
structure Operator where
  level : Nat
  toRight : Bool
  build : Filter → Filter → Filter

def operator? : Token → Option Operator
  | .symbol "|" => some ⟨0, true, .pipe⟩
  | .symbol "," => some ⟨1, false, .comma⟩
  | .symbol "=" => some ⟨2, true, .assign⟩
  | .symbol "|=" => some ⟨2, true, .update⟩
  | .symbol "//" => some ⟨3, true, .orElse⟩
  | .word "or" => some ⟨4, false, .either⟩
  | .word "and" => some ⟨5, false, .both⟩
  | .symbol "==" => some ⟨6, false, .compare .eq⟩
  | .symbol "!=" => some ⟨6, false, .compare .ne⟩
  | .symbol "<" => some ⟨7, false, .compare .lt⟩
  | .symbol "<=" => some ⟨7, false, .compare .le⟩
  | .symbol ">" => some ⟨7, false, .compare .gt⟩
  | .symbol ">=" => some ⟨7, false, .compare .ge⟩
  | .symbol "+" => some ⟨8, false, .calculate .add⟩
  | .symbol "-" => some ⟨8, false, .calculate .sub⟩
  | .symbol "*" => some ⟨9, false, .calculate .mul⟩
  | _ => none

abbrev Parser (α : Type) := List Token → Option (α × List Token)

def expect (symbol : String) : Parser Unit
  | .symbol s :: rest => if s = symbol then some ((), rest) else none
  | _ => none

def expectWord (word : String) : Parser Unit
  | .word w :: rest => if w = word then some ((), rest) else none
  | _ => none

def ofString (s : String) : Filter := .constant (.string s)

def takeMarks : List Token → Bool × List Token
  | .symbol "?" :: rest => (true, (takeMarks rest).2)
  | tokens => (false, tokens)

/-- A path, or the head itself where nothing comes after it. -/
def withTrail (head : Filter) : Trail → Filter
  | .done => head
  | trail => .path head trail

def ofEntries : List Filter → Filter
  | [] => .constant (.object [])
  | first :: others => others.foldl (.calculate .add) first

def ofWord (name : String) (arguments : List Filter) : Filter :=
  match name, arguments with
  | "null", [] => .constant .null
  | "true", [] => .constant (.bool true)
  | "false", [] => .constant (.bool false)
  | _, _ => .call name arguments

def ofKey (key : String) : Selector := .index (ofString key)

/-! Every parser below takes a bound on its recursion first. An expression is read from operators of
a least level on; between the braces of an object a comma ends it. -/

mutual

def parseExpression : Nat → Bool → Nat → Parser Filter
  | 0, _, _, _ => none
  | n + 1, commas, level, tokens => do
    let (first, rest) ← parseTerm n tokens
    parseOperators n commas level first rest

def parseOperators : Nat → Bool → Nat → Filter → Parser Filter
  | 0, _, _, _, _ => none
  | n + 1, commas, level, first, tokens =>
    match tokens.head?.bind operator? with
    | none => some (first, tokens)
    | some op =>
      if op.level < level || (op.level = 1 && !commas) then some (first, tokens)
      else do
        let inner := if op.toRight then op.level else op.level + 1
        let (second, rest) ← parseExpression n commas inner (tokens.drop 1)
        parseOperators n commas level (op.build first second) rest

/-- A term is a head with a trail; a trail that begins with a key needs no head. -/
def parseTerm : Nat → Parser Filter
  | 0, _ => none
  | n + 1, tokens =>
    match tokens with
    | .symbol "-" :: rest => do
      let (body, rest) ← parseTerm n rest
      return (.negate body, rest)
    | .field _ :: _ | .symbol "." :: .string _ :: _ => do
      let (trail, rest) ← parseTrail n tokens
      return (.path .identity trail, rest)
    | _ => do
      let (head, rest) ← parseHead n tokens
      let (optional, rest) := takeMarks rest
      let (trail, rest) ← parseTrail n rest
      return (withTrail (if optional then .attempt head else head) trail, rest)

def parseHead : Nat → Parser Filter
  | 0, _ => none
  | n + 1, tokens =>
    match tokens with
    | .symbol "." :: rest => some (.identity, rest)
    | .number q :: rest => some (.constant (.number q), rest)
    | .string s :: rest => some (ofString s, rest)
    | .variable name :: rest => some (.variable name, rest)
    | .symbol "(" :: rest => do
      let (body, rest) ← parseExpression n true 0 rest
      let (_, rest) ← expect ")" rest
      return (body, rest)
    | .symbol "[" :: .symbol "]" :: rest => some (.constant (.array []), rest)
    | .symbol "[" :: rest => do
      let (body, rest) ← parseExpression n true 0 rest
      let (_, rest) ← expect "]" rest
      return (.collect body, rest)
    | .symbol "\x7b" :: rest => do
      let (entries, rest) ← parseEntries n rest
      return (ofEntries entries, rest)
    | .word "if" :: rest => parseBranch n rest
    | .word name :: rest =>
      if keywords.contains name then none
      else do
        let (arguments, rest) ← parseArguments n rest
        return (ofWord name arguments, rest)
    | _ => none

def parseTrail : Nat → Parser Trail
  | 0, _ => none
  | n + 1, tokens => do
    let found ← (match tokens with
      | .field name :: rest => some (some (ofKey name, rest))
      | .symbol "." :: .string key :: rest => some (some (ofKey key, rest))
      | .symbol "[" :: rest => some <$> parseBracket n rest
      | _ => some none)
    match found with
    | none => return (.done, tokens)
    | some (selector, rest) =>
      let (optional, rest) := takeMarks rest
      let (trail, rest) ← parseTrail n rest
      return (.step selector optional trail, rest)

def parseBracket : Nat → Parser Selector
  | 0, _ => none
  | n + 1, tokens =>
    match tokens with
    | .symbol "]" :: rest => some (.all, rest)
    | .symbol ":" :: rest => do
      let (upper, rest) ← parseExpression n true 0 rest
      let (_, rest) ← expect "]" rest
      return (.sliceTo upper, rest)
    | _ => do
      let (lower, rest) ← parseExpression n true 0 tokens
      match rest with
      | .symbol "]" :: rest => return (.index lower, rest)
      | .symbol ":" :: .symbol "]" :: rest => return (.sliceFrom lower, rest)
      | .symbol ":" :: rest => do
        let (upper, rest) ← parseExpression n true 0 rest
        let (_, rest) ← expect "]" rest
        return (.slice lower upper, rest)
      | _ => none

def parseBranch : Nat → Parser Filter
  | 0, _ => none
  | n + 1, tokens => do
    let (condition, rest) ← parseExpression n true 0 tokens
    let (_, rest) ← expectWord "then" rest
    let (positive, rest) ← parseExpression n true 0 rest
    match rest with
    | .word "end" :: rest => return (.branch condition positive .identity, rest)
    | .word "elif" :: rest => do
      let (negative, rest) ← parseBranch n rest
      return (.branch condition positive negative, rest)
    | .word "else" :: rest => do
      let (negative, rest) ← parseExpression n true 0 rest
      let (_, rest) ← expectWord "end" rest
      return (.branch condition positive negative, rest)
    | _ => none

def parseArguments : Nat → Parser (List Filter)
  | 0, _ => none
  | n + 1, tokens =>
    match tokens with
    | .symbol "(" :: rest => parseMoreArguments n rest
    | _ => some ([], tokens)

def parseMoreArguments : Nat → Parser (List Filter)
  | 0, _ => none
  | n + 1, tokens => do
    let (first, rest) ← parseExpression n true 0 tokens
    match rest with
    | .symbol ")" :: rest => return ([first], rest)
    | .symbol ";" :: rest => do
      let (others, rest) ← parseMoreArguments n rest
      return (first :: others, rest)
    | _ => none

def parseEntries : Nat → Parser (List Filter)
  | 0, _ => none
  | n + 1, tokens =>
    match tokens with
    | .symbol "\x7d" :: rest => some ([], rest)
    | _ => do
      let (first, rest) ← parseEntry n tokens
      match rest with
      | .symbol "\x7d" :: rest => return ([first], rest)
      | .symbol "," :: rest => do
        let (others, rest) ← parseEntries n rest
        return (first :: others, rest)
      | _ => none

/-- An entry; a key without a value stands for the entry under that key. -/
def parseEntry : Nat → Parser Filter
  | 0, _ => none
  | n + 1, tokens => do
    let (key, short?, rest) ← (match tokens with
      | .symbol "(" :: rest => do
        let (key, rest) ← parseExpression n true 0 rest
        let (_, rest) ← expect ")" rest
        return (key, none, rest)
      | .word key :: rest | .string key :: rest =>
        some (ofString key, some (.path .identity (.step (ofKey key) false .done)), rest)
      | .variable name :: rest => some (.variable name, some (.variable name), rest)
      | _ => none)
    match rest, short? with
    | .symbol ":" :: rest, _ => do
      let (value, rest) ← parseExpression n false 0 rest
      return (.entry key value, rest)
    | _, some short => return (.entry key short, rest)
    | _, none => none

end

def parse? (text : String) : Option Filter := do
  let tokens ← Token.scan text
  let isDirective := match tokens.head? with
    | some (.word name) => directives.contains name
    | _ => false
  if isDirective then none
  else
    match ← parseExpression (8 * tokens.length + 8) true 0 tokens with
    | (filter, []) => return filter
    | _ => none

end TypeSchema.Filter
