import TypeSchema.Descriptor.Form
import TypeSchema.Files.Disk
import TypeSchema.Schema.Synthesis

/-!
Fixtures: pairs of files in a directory, a descriptor and the schema that is expected of it. Schemas
are compared as values, so the order of their keys does not matter.
-/
namespace TypeSchema.Fixtures

inductive Fault where
  | unreadable (error : FileError)
  | misread (error : Reading.Error)
  | rejected (rejection : Rejection)
  | missing (path : String) (error : FileError)
  | notJson
  | differs (expected actual : Json)

def Fault.text : Fault → String
  | .unreadable e => e.text
  | .misread .malformed => "malformed JSON"
  | .misread (.misshapen place mismatch) => Reading.message place mismatch
  | .rejected r => "compile failed: " ++ r.message
  | .missing path e => "missing " ++ path ++ ": " ++ e.text
  | .notJson => "malformed JSON"
  | .differs expected actual =>
    "schema mismatch\n  expected: " ++ expected.compact ++ "\n  actual:   " ++ actual.compact

def descriptorEnd : String := ".descriptor.json"

def schemaEnd : String := ".schema.json"

/-- The path to the schema that is expected of a descriptor. -/
def expectedPath (path : String) : String := Path.replaceAll descriptorEnd schemaEnd path

def actual (text : String) : Except Fault Json := do
  let d ← (Descriptor.ofText text).mapError .misread
  let schema ← (d.schema {}).mapError .rejected
  return schema.toJson

def compare (schema : Json) (text : String) : Except Fault Unit :=
  match Json.parse? text with
  | none => .error .notJson
  | some expected => if schema.same expected then pure () else .error (.differs expected schema)

structure Verdict where
  name : String
  fault : Option Fault

def Verdict.text (v : Verdict) : String :=
  match v.fault with
  | none => "✅ " ++ v.name
  | some fault => "❌ " ++ v.name ++ ": " ++ fault.text

inductive Report where
  | badPattern (pattern : String)
  | verdicts (verdicts : List Verdict)

namespace Report

def failures (verdicts : List Verdict) : Nat := verdicts.countP (·.fault.isSome)

/-- All fixtures pass, and there are some. -/
def isPassed : Report → Bool
  | .badPattern _ => false
  | .verdicts vs => failures vs == 0 && !vs.isEmpty

def text : Report → String
  | .badPattern pattern => "error: bad fixture pattern " ++ pattern ++ "\n"
  | .verdicts vs =>
    String.join (vs.map fun v => v.text ++ "\n") ++
      "—— " ++ toString (vs.length - failures vs) ++ " passed, " ++ toString (failures vs) ++
        " failed ——\n"

def status (r : Report) : UInt8 := if r.isPassed then 0 else 1

end Report

section
variable {m : Type → Type} [Monad m] (disk : Disk m)

def check (path : String) : m (Except Fault Unit) := do
  match ← disk.readText path with
  | .error e => return .error (.unreadable e)
  | .ok text =>
    match actual text with
    | .error fault => return .error fault
    | .ok schema =>
      match ← disk.readText (expectedPath path) with
      | .error e => return .error (.missing (expectedPath path) e)
      | .ok expected => return compare schema expected

def judge (path : String) : m Verdict := do
  let name := (Path.fileName? path).getD ""
  match ← check disk path with
  | .ok () => return ⟨name, none⟩
  | .error fault => return ⟨name, some fault⟩

/-- Checks all fixtures of a directory, which may be given by a pattern. Directories that cannot be
looked into are passed over. -/
def run (directory : String) : m Report := do
  let pattern := Path.join directory ("*" ++ descriptorEnd)
  match ← disk.find pattern with
  | .error _ => return .badPattern pattern
  | .ok hits => return .verdicts (← (Disk.paths hits).mapM (judge disk))

end

end TypeSchema.Fixtures
