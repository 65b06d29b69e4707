import TypeSchema.Command.Run
import TypeSchema.Files.Local
import TypeSchema.Fixtures

/-!
The programs: the command, and the check of a directory of fixtures. The name that they are called
by tells which of them runs.
-/
namespace TypeSchema

/-- The directory that is checked when none is named. -/
def defaultFixtures : String := "fixtures"

def checkFixtures (args : List String) : IO UInt32 := do
  let report ← Fixtures.run Disk.localDisk (args.head?.getD defaultFixtures)
  IO.eprint report.text
  return report.status.toUInt32

def runCommand (args : List String) : IO UInt32 := do
  let outcome ← Command.run Disk.localDisk args Filter.apply .bySize
  IO.print outcome.stdout
  IO.eprint outcome.stderr
  return outcome.status.toUInt32

end TypeSchema

def main (args : List String) : IO UInt32 := do
  if (← IO.appPath).fileName = some "check-fixtures" then TypeSchema.checkFixtures args
  else TypeSchema.runCommand args
