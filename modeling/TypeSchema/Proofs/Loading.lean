import TypeSchema.Command.Batch
import TypeSchema.Proofs.Except

/-!
How the files of a batch are loaded. A file holds the values that the filter makes of the part of
its value that the pointer leads to; the batch loads if every file holds values and each of them is
a descriptor. Otherwise it fails for the first value that is none, or for the first file that holds
no values if that comes earlier.
-/
namespace TypeSchema.Command

namespace Inputs

variable (inputs : Inputs) (filtering : Filtering)

/-- The pointer, if there is one, leads from a value to this part of it. -/
def LeadsTo (v part : Json) : Prop :=
  match inputs.pointer with
  | none => part = v
  | some pointer => Json.Pointer.find? pointer v = some part

def Makes (v : Json) (made : List Json) : Prop :=
  match inputs.filter with
  | none => made = [v]
  | some filter => filtering filter v = .ok made

/-- These are the values in a file. -/
inductive Holds (s : Source) (vs : List Json) : Prop where
  | intro {text : String} {v part : Json} : s.content = .ok text → Json.parse? text = some v →
    inputs.LeadsTo v part → inputs.Makes filtering part vs → Holds s vs

section
variable {inputs filtering} {s : Source} {path : String} {v : Json} {f : Failure}

theorem values_of_notJson {text : String} (hcontent : s.content = .ok text)
    (hnone : Json.parse? text = none) : inputs.values filtering s = .error (.notJson s.path) := by
  simp only [values, hcontent, Except.mapError, bind, Except.bind, hnone]

end

end Inputs

namespace Inputs

variable {inputs : Inputs} {filtering : Filtering} {s : Source} {sources : List Source}
  {docs : List Loaded} {f : Failure}

end Inputs

end TypeSchema.Command
