import TypeSchema.Json.Basic
import TypeSchema.Text

/-!
Pointers into JSON values: a slash before each key or index. In a key `~1` stands for a slash and
`~0` for a tilde. The empty pointer leads to the whole value.
-/
namespace TypeSchema.Json.Pointer

/-- A key without its escapes. A tilde before anything else stands for itself. -/
def unescape : List Char → List Char
  | '~' :: '1' :: rest => '/' :: unescape rest
  | '~' :: '0' :: rest => '~' :: unescape rest
  | c :: rest => c :: unescape rest
  | [] => []

/-- An index into an array: digits that do not begin with a needless zero. -/
def index? (text : List Char) : Option Nat :=
  if text.head? == some '0' && text.length ≠ 1 then none
  else Text.natural? text

def child? (v : Json) (token : List Char) : Option Json :=
  match v with
  | .object entries => entries.lookup (String.ofList token)
  | .array items => (index? token).bind (items[·]?)
  | _ => none

def find? (pointer : String) (v : Json) : Option Json :=
  match pointer.toList with
  | [] => some v
  | '/' :: rest => ((Text.split '/' rest).map unescape).foldlM child? v
  | _ => none

end TypeSchema.Json.Pointer
