import TypeSchema.Command.Basic
import TypeSchema.Compile.Rejection
import TypeSchema.Files.Disk
import TypeSchema.Filter.Outcomes

/-!
Why a run of the command fails.
-/
namespace TypeSchema.Command

inductive Failure where
  | badPattern (error : Pattern.Error)
  | unsearched (error : Disk.Unsearched)
  | noMatch (pattern : String)
  | unreadable (path : String) (error : FileError)
  | notJson (path : String)
  | noTarget (pointer path : String)
  | filterFailed (path : String) (error : Filter.Error)
  | misread (source : String) (error : Reading.Error)
  | rejected (product : Product) (source : String) (rejection : Rejection)
  | nothingRead
  | directoryNotMade (path : String) (error : FileError)
  | notWritten (path : String) (error : FileError)

namespace Failure

def malformed : String := "malformed JSON"

def filterErrorText : Filter.Error → String
  | .malformed => "malformed filter"
  | .undefined => "undefined name in filter"
  | .failed .runtime => "filter failed"
  | .failed .unreadable => "filter output is not valid JSON"

/-- What follows the name of a source that holds no descriptor. -/
def readingChain : Reading.Error → List String
  | .malformed => [malformed]
  | .misshapen place mismatch => [Reading.message place mismatch, mismatch.text]

def productVerb : Product → String
  | .schema => "compile"
  | .entity => "build entity"

/-- What was attempted and what went wrong with it, the most general first. -/
def chain : Failure → List String
  | .badPattern e => ["failed to resolve input file paths", e.text]
  | .unsearched e => ["failed to resolve input file paths", e.text]
  | .noMatch pattern =>
    ["failed to resolve input file paths", "glob pattern matched no files: " ++ pattern]
  | .unreadable path e => ["failed to read source file (" ++ path ++ ")", e.text]
  | .notJson path => ["failed to parse JSON source file (" ++ path ++ ")", malformed]
  | .noTarget pointer path =>
    ["JSON pointer " ++ pointer ++ " matched nothing in (" ++ path ++ ")"]
  | .filterFailed path e =>
    ["failed to apply jq expression to source file (" ++ path ++ ")", filterErrorText e]
  | .misread source e => ("invalid type descriptor (" ++ source ++ ")") :: readingChain e
  | .rejected product source r =>
    ["failed to " ++ productVerb product ++ " (" ++ source ++ ")", r.message]
  | .nothingRead => ["no descriptors were read from the inputs"]
  | .directoryNotMade path e => ["failed to create output directory " ++ path, e.text]
  | .notWritten path e => ["failed to write " ++ path, e.text]

def message (f : Failure) : String := ": ".intercalate f.chain

end Failure

end TypeSchema.Command
