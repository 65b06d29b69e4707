import TypeSchema.Json.Document
import TypeSchema.Text

/-!
Why a JSON text cannot be read as a value of some type: it is no JSON, or at some place in it stands
something of another shape than is wanted there.
-/
namespace TypeSchema.Reading

inductive Step where
  | key (name : String)
  | index (position : Nat)
  deriving DecidableEq, Repr

/-- The way from the whole value to a part, outermost step first. -/
abbrev Place := List Step

namespace Place

def textAfter : Place → String
  | [] => ""
  | .key name :: rest => "." ++ name ++ textAfter rest
  | .index i :: rest => "[" ++ toString i ++ "]" ++ textAfter rest

/-- Keys are joined by points and indices bracketed; a point alone is the whole value. -/
def text : Place → String
  | [] => "."
  | .key name :: rest => name ++ textAfter rest
  | place => textAfter place

end Place

inductive Found where
  | null
  | bool (value : Bool)
  | number (value : Number)
  | string (value : String)
  | sequence
  | map
  deriving Repr

inductive Wanted where
  | string
  | boolean
  | natural
  | sequence
  | record (noun : String)
  | descriptor
  | variant
  | stringOrMap
  | unit
  deriving DecidableEq, Repr

inductive Mismatch where
  | wrongType (found : Found) (wanted : Wanted)
  | negative (value : Int)
  | notOneKey
  | unknownVariant (name : String) (known : List String)
  | variantIndex (value : Int) (count : Nat)
  | missingField (name : String)
  | duplicateField (name : String)
  /-- An array of fields ends before field `length`, which has no default. -/
  | shortRecord (length : Nat) (noun : String) (size : Nat)
  | longArray (length : Nat)
  /-- An array inside a descriptor goes on after `size` fields. -/
  | longContent (length size : Nat)
  | notScalar
  deriving Repr

inductive Error where
  | malformed
  | misshapen (place : Place) (mismatch : Mismatch)
  deriving Repr

def Found.text : Found → String
  | .null => "null"
  | .bool true => "boolean `true`"
  | .bool false => "boolean `false`"
  | .number (.int n) => "integer `" ++ toString n ++ "`"
  | .number (.float x) => "floating point `" ++ x.text ++ "`"
  | .string s => "string " ++ Text.quoted s
  | .sequence => "sequence"
  | .map => "map"

def Wanted.text : Wanted → String
  | .string => "a string"
  | .boolean => "a boolean"
  | .natural => "usize"
  | .sequence => "a sequence"
  | .record noun => noun
  | .descriptor => "internally tagged enum TypeDescriptor"
  | .variant => "variant identifier"
  | .stringOrMap => "string or map"
  | .unit => "unit"

/-- A number of elements; one is singular. -/
def elements : Nat → String
  | 1 => "1 element"
  | n => toString n ++ " elements"

def backquoted (name : String) : String := "`" ++ name ++ "`"

/-- The names that would have been known. -/
def alternatives : List String → String
  | [] => "there are no variants"
  | [a] => "expected " ++ backquoted a
  | [a, b] => "expected " ++ backquoted a ++ " or " ++ backquoted b
  | names => "expected one of " ++ ", ".intercalate (names.map backquoted)

def invalidLength (length : Nat) (wanted : String) : String :=
  "invalid length " ++ toString length ++ ", expected " ++ wanted

def Mismatch.text : Mismatch → String
  | .wrongType found wanted => "invalid type: " ++ found.text ++ ", expected " ++ wanted.text
  | .negative n => "invalid value: integer `" ++ toString n ++ "`, expected usize"
  | .notOneKey => "invalid value: map, expected map with a single key"
  | .unknownVariant name known =>
    "unknown variant " ++ backquoted name ++ ", " ++ alternatives known
  | .variantIndex n count =>
    "invalid value: integer `" ++ toString n ++ "`, expected variant index 0 <= i < " ++
      toString count
  | .missingField name => "missing field " ++ backquoted name
  | .duplicateField name => "duplicate field " ++ backquoted name
  | .shortRecord length noun size => invalidLength length (noun ++ " with " ++ elements size)
  | .longArray length => invalidLength length "fewer elements in array"
  | .longContent length size => invalidLength length (elements size ++ " in sequence")
  | .notScalar => "data did not match any variant of untagged enum LiteralConst"

def message (place : Place) (mismatch : Mismatch) : String :=
  "at JSON path " ++ place.text ++ " → " ++ mismatch.text

end TypeSchema.Reading
