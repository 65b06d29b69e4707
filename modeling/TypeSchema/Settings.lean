import TypeSchema.Reading.Basic

/-!
The settings of a compilation.
-/
namespace TypeSchema

open Reading

/-- What becomes of null beside alternatives none of which is a primitive. -/
inductive NullPolicy where
  /-- It is a fragment of its own, before the others. -/
  | typeNull
  /-- It leaves no trace. -/
  | omit
  deriving DecidableEq, Repr

structure Settings where
  maxDepth : Nat := 64
  nullPolicy : NullPolicy := .typeNull
  deriving DecidableEq, Repr

def NullPolicy.choices : List (String × NullPolicy) := [("type-null", .typeNull), ("omit", .omit)]

def NullPolicy.read : Spot → Document → Read NullPolicy := readChoice NullPolicy.choices

namespace Settings

def layout : Layout := ⟨"struct Options", [("max_depth", false), ("null_only", false)]⟩

def readField (key : String) (spot : Spot) (doc : Document) (s : Settings) : Read Settings :=
  if key = "max_depth" then return { s with maxDepth := ← readNat spot doc }
  else return { s with nullPolicy := ← NullPolicy.read spot doc }

/-- Every setting has a default. -/
def read : Spot → Document → Read Settings := layout.read readField {}

end Settings

end TypeSchema
