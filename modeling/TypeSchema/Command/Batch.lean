import TypeSchema.Command.Failure
import TypeSchema.Command.Progress
import TypeSchema.Descriptor.Form
import TypeSchema.Json.Pointer
import TypeSchema.Schema.Synthesis

/-!
What a run makes of the files that were read. All descriptors are loaded before any is compiled, so
the first failure to load comes before every failure to compile. They are compiled side by side. One
result stands by itself; several form an array in the order of the files and of the values in each.
Whatever language the filters are written in, it is given as what a filter makes of a value.
-/
namespace TypeSchema.Command

/-- A file and its text, or why it has none. -/
structure Source where
  path : String
  content : Except FileError String

structure Loaded where
  source : String
  descriptor : Descriptor
  deriving Repr

/-- What a filter given as text makes of a value. -/
abbrev Filtering := String → Json → Except Filter.Error (List Json)

namespace Inputs

def select (inputs : Inputs) (path : String) (v : Json) : Except Failure Json :=
  match inputs.pointer with
  | none => pure v
  | some pointer =>
    match Json.Pointer.find? pointer v with
    | some part => pure part
    | none => .error (.noTarget pointer path)

def expand (inputs : Inputs) (filtering : Filtering) (path : String) (v : Json) :
    Except Failure (List Json) :=
  match inputs.filter with
  | none => pure [v]
  | some filter => (filtering filter v).mapError (.filterFailed path)

def values (inputs : Inputs) (filtering : Filtering) (s : Source) : Except Failure (List Json) := do
  let text ← s.content.mapError (.unreadable s.path)
  match Json.parse? text with
  | none => .error (.notJson s.path)
  | some v => inputs.expand filtering s.path (← inputs.select s.path v)

end Inputs

def loadValue (source : String) (v : Json) : Except Failure Loaded :=
  match Descriptor.ofJson v with
  | .ok d => pure ⟨source, d⟩
  | .error e => .error (.misread source e)

def loadNumbered (path : String) : Nat → List Json → Except Failure (List Loaded)
  | _, [] => pure []
  | i, v :: vs => do
    let first ← loadValue (path ++ "#" ++ toString i) v
    let rest ← loadNumbered path (i + 1) vs
    return first :: rest

/-- Loads the values of a file. Only a value among several is named by its position. -/
def loadValues (path : String) : List Json → Except Failure (List Loaded)
  | [v] => do return [← loadValue path v]
  | vs => loadNumbered path 0 vs

def Inputs.load (inputs : Inputs) (filtering : Filtering) :
    List Source → Except Failure (List Loaded)
  | [] => pure []
  | s :: rest => do
    let first ← loadValues s.path (← inputs.values filtering s)
    let others ← inputs.load filtering rest
    return first ++ others

def Product.make (product : Product) (s : Settings) (d : Descriptor) : Compiled Json :=
  match product with
  | .schema => Schema.toJson <$> d.schema s
  | .entity => Entity.toJson <$> Entity.ofDescriptor s.maxDepth d

def Product.makeLoaded (product : Product) (s : Settings) (l : Loaded) : Except Failure Json :=
  (product.make s l.descriptor).mapError (.rejected product l.source)

/-- An order in which the descriptors that were loaded are compiled. -/
abbrev Schedule := (loaded : List Loaded) → Order loaded.length

/-- The larger a descriptor is, the longer it takes to compile. -/
def Schedule.bySize : Schedule := Order.byCost (·.descriptor.size)

def Product.makeAll (product : Product) (s : Settings) (schedule : Schedule)
    (loaded : List Loaded) : Except Failure (List Json) :=
  (Progress.after (loaded.map (product.makeLoaded s)) (schedule loaded).jobs).outcome

def combine : List Json → Except Failure Json
  | [] => .error .nothingRead
  | [v] => pure v
  | vs => pure (.array vs)

def Invocation.result (filtering : Filtering) (schedule : Schedule) (i : Invocation)
    (sources : List Source) : Except Failure Json := do
  let loaded ← i.inputs.load filtering sources
  let made ← i.product.makeAll i.settings schedule loaded
  combine made

def Output.text (output : Output) (v : Json) : String :=
  if output.compact then v.compact else v.pretty

end TypeSchema.Command
