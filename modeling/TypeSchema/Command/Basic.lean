import TypeSchema.Settings

/-!
What the command may be asked to do.
-/
namespace TypeSchema.Command

inductive Product where
  | schema
  | entity
  deriving DecidableEq, Repr

/-- Where descriptors come from: a pointer into each file, then a filter over what it points to. -/
structure Inputs where
  pointer : Option String
  filter : Option String
  patterns : List String
  deriving DecidableEq, Repr

structure Output where
  file : Option String
  compact : Bool
  deriving DecidableEq, Repr

structure Invocation where
  product : Product
  inputs : Inputs
  output : Output
  settings : Settings
  /-- Only describe the invocation. -/
  isDescribed : Bool
  deriving DecidableEq, Repr

inductive Request where
  | version
  | help
  | run (invocation : Invocation)
  deriving DecidableEq, Repr

end TypeSchema.Command
