import TypeSchema.Command.Arguments
import TypeSchema.Command.Batch
import TypeSchema.Command.Description
import TypeSchema.Filter.Evaluation

/-!
A run of the command on a disk. Nothing is written before everything is compiled.
-/
namespace TypeSchema.Command

inductive Outcome where
  | usage
  | help
  | version
  | described (invocation : Invocation)
  | printed (text : String)
  | written
  | failed (failure : Failure)

namespace Outcome

def helpText : String :=
  "Usage: shape-schema <schema|entity> --input <INPUT>... [--json-pointer <POINTER>] " ++
    "[--jq-expr <FILTER>] [--out <FILE>] [--compact] [--max-depth <N>] " ++
    "[--null-only <type-null|omit>] [--no-op]\n"

def versionText : String := "shape-schema 0.1.0\n"

def status : Outcome → UInt8
  | .usage => 2
  | .failed _ => 1
  | _ => 0

def stdout : Outcome → String
  | .help => helpText
  | .version => versionText
  | .printed text => text ++ "\n"
  | _ => ""

def stderr : Outcome → String
  | .usage => helpText
  | .described i => i.description ++ "\n"
  | .failed f => "error: " ++ f.message ++ "\n"
  | _ => ""

end Outcome

section
variable {m : Type → Type} [Monad m] (disk : Disk m)

/-- The paths that one input stands for: itself, or what it matches as a pattern if the search can
look into every directory on its way. -/
def resolveOne (text : String) : m (Except Failure (List String)) := do
  if Pattern.isPattern text then
    match ← disk.find text with
    | .error e => return .error (.badPattern e)
    | .ok [] => return .error (.noMatch text)
    | .ok hits => return (hits.mapM id).mapError .unsearched
  else return .ok [text]

def resolve : List String → m (Except Failure (List String))
  | [] => pure (.ok [])
  | text :: rest => do
    match ← resolveOne disk text with
    | .error e => return .error e
    | .ok paths =>
      match ← resolve rest with
      | .error e => return .error e
      | .ok others => return .ok (paths ++ others)

def readSource (path : String) : m Source := do
  return ⟨path, ← disk.readText path⟩

def writeFile (path text : String) : m (Except Failure Unit) := do
  let parent := (Path.parent? path).getD ""
  match ← disk.makeDirectories parent with
  | .error e => return .error (.directoryNotMade parent e)
  | .ok () => return (← disk.writeText path text).mapError (.notWritten path)

def emit (output : Output) (v : Json) : m Outcome := do
  let text := output.text v
  match output.file with
  | none => return .printed text
  | some path =>
    match ← writeFile disk path text with
    | .error e => return .failed e
    | .ok () => return .written

def Invocation.run (filtering : Filtering) (schedule : Schedule) (i : Invocation) : m Outcome := do
  if i.isDescribed then return .described i
  match ← resolve disk i.inputs.patterns with
  | .error e => return .failed e
  | .ok paths =>
    match i.result filtering schedule (← paths.mapM (readSource disk)) with
    | .error e => return .failed e
    | .ok v => emit disk i.output v

def run (args : List String) (filtering : Filtering := Filter.apply)
    (schedule : Schedule := .bySize) : m Outcome :=
  match Request.ofArguments? args with
  | none => pure .usage
  | some .help => pure .help
  | some .version => pure .version
  | some (.run i) => i.run disk filtering schedule

end

end TypeSchema.Command
