import TypeSchema.Json.Basic

/-!
JSON values as text, on one line or indented by two blanks a level. In a string only the quotation
mark, the backslash and the control characters below U+0020 are escaped.
-/
namespace TypeSchema.Json

def hexDigit (n : Nat) : Char := (Nat.toDigits 16 n).headD '0'

def escape (c : Char) : List Char :=
  match c with
  | '"' => ['\\', '"']
  | '\\' => ['\\', '\\']
  | '\x08' => ['\\', 'b']
  | '\t' => ['\\', 't']
  | '\n' => ['\\', 'n']
  | '\x0c' => ['\\', 'f']
  | '\r' => ['\\', 'r']
  | c =>
    if c.val < 32 then ['\\', 'u', '0', '0', hexDigit (c.toNat / 16), hexDigit (c.toNat % 16)]
    else [c]

def quote (s : String) : String :=
  String.ofList ('"' :: (s.toList.flatMap escape ++ ['"']))

mutual

def compact : Json → String
  | .null => "null"
  | .bool true => "true"
  | .bool false => "false"
  | .number n => n.text
  | .string s => quote s
  | .array xs => "[" ++ ",".intercalate (compactItems xs) ++ "]"
  | .object es => "\x7b" ++ ",".intercalate (compactEntries es) ++ "\x7d"

def compactItems : List Json → List String
  | [] => []
  | x :: xs => compact x :: compactItems xs

def compactEntries : List (String × Json) → List String
  | [] => []
  | (k, v) :: es => (quote k ++ ":" ++ compact v) :: compactEntries es

end

def newline (level : Nat) : String := "\n".pushn ' ' (2 * level)

/-- Lines of a container: an empty one is its two brackets. -/
def block (opening closing : String) (level : Nat) : List String → String
  | [] => opening ++ closing
  | lines =>
    opening ++ newline (level + 1) ++ ("," ++ newline (level + 1)).intercalate lines ++
      newline level ++ closing

mutual

/-- The value over several lines, its containers at a level of indentation. -/
def indented (level : Nat) : Json → String
  | .array xs => block "[" "]" level (indentedItems (level + 1) xs)
  | .object es => block "\x7b" "\x7d" level (indentedEntries (level + 1) es)
  | v => compact v

def indentedItems (level : Nat) : List Json → List String
  | [] => []
  | x :: xs => indented level x :: indentedItems level xs

def indentedEntries (level : Nat) : List (String × Json) → List String
  | [] => []
  | (k, v) :: es => (quote k ++ ": " ++ indented level v) :: indentedEntries level es

end

def pretty (v : Json) : String := indented 0 v

end TypeSchema.Json
