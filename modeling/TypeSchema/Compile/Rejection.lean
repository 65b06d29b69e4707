import TypeSchema.Json.Text

/-!
Why a descriptor is rejected, and where.
-/
namespace TypeSchema

/-- One step from a type to a part of it. -/
inductive Segment where
  | field (name : String)
  | element
  | position (index : Nat)
  deriving DecidableEq, Repr

/-- A part of a type: the name of the whole and the steps from there, outermost first. -/
structure Location where
  root : String
  segments : List Segment
  deriving DecidableEq, Repr

inductive Rejection.Cause where
  | emptyEnumeration
  | emptyUnion
  | unsupportedType (spelling : String)
  | unsupportedElement (found : String)
  | unsupportedRoot (found : String)
  | ambiguousDeclaration (count : Nat)
  | missingDeclaration
  | unknownInitializer (member : String) (initializer : Json)
  | depthExceeded (limit : Nat)
  deriving Repr

structure Rejection where
  location : Location
  cause : Rejection.Cause
  deriving Repr

def Segment.text : Segment → String
  | .field name => "." ++ name
  | .element => "[]"
  | .position i => "[" ++ toString i ++ "]"

namespace Location

def field (l : Location) (name : String) : Location :=
  { l with segments := l.segments ++ [.field name] }

def element (l : Location) : Location := { l with segments := l.segments ++ [.element] }

def position (l : Location) (i : Nat) : Location :=
  { l with segments := l.segments ++ [.position i] }

def text (l : Location) : String := l.root ++ String.join (l.segments.map Segment.text)

end Location

namespace Rejection

def notSupported (shape : String) : String := shape ++ " is not supported"

def Cause.text : Cause → String
  | .emptyEnumeration => notSupported "enum with no members"
  | .emptyUnion => notSupported "union with no members"
  | .unsupportedType spelling => notSupported ("type `" ++ spelling ++ "`")
  | .unsupportedElement found => "array element must be an object shape, found " ++ found
  | .unsupportedRoot found =>
    "root must be an object, a union of objects, or an array of those; found " ++ found
  | .ambiguousDeclaration count =>
    "more than one declaration (" ++ toString count ++ ") for field"
  | .missingDeclaration => "field does not have any declarations"
  | .unknownInitializer member initializer =>
    "unknown initializer `" ++ initializer.compact ++ "` for enum member `" ++ member ++ "`"
  | .depthExceeded limit =>
    "descriptor nesting exceeds the maximum depth of " ++ toString limit

def message (r : Rejection) : String := r.cause.text ++ " (" ++ r.location.text ++ ")"

end Rejection

end TypeSchema
