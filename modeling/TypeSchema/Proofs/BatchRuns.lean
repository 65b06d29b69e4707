import TypeSchema.Proofs.CompletionOrder
import TypeSchema.Proofs.Loading
import TypeSchema.Proofs.Looking
import TypeSchema.Proofs.Routes

/-!
Runs over a batch of files. A run emits one value exactly if every file loads, something is made of
each descriptor and there is at least one; the value tells all that was made in the order of the
files and of the values in each. Otherwise the run fails before it has printed or written anything,
and for the first file that does not load if there is one.
-/
namespace TypeSchema

namespace Command

section
variable {product : Product} {s : Settings} {schedule : Schedule} {docs : List Loaded}

end

namespace Invocation

variable {i : Invocation} {filtering : Filtering} {schedule : Schedule} {sources : List Source}
  {f : Failure}

end Invocation

namespace Inputs

variable {inputs : Inputs} {filtering : Filtering} {s : Source} {docs : List Loaded}
  {vs ws : List Json} {f : Failure}

end Inputs

namespace Invocation

variable {i : Invocation} {filtering : Filtering} {sources : List Source}

end Invocation

/-! ### Runs on a disk -/

section
variable {σ : Type} {disk : Disk (StateM σ)} {world : σ}

section
variable {output : Output} {path : String} {v : Json} {written : σ}

end

namespace Invocation

variable (h : disk.OnlyLooks) {i : Invocation} (hi : i.isDescribed = false)
  (filtering : Filtering) (schedule : Schedule)
include h hi

end Invocation

end

end Command

end TypeSchema
