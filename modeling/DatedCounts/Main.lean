import DatedCounts.Report

/-!
# The command

Reads the files that a command line calls for and prints the report on them.
-/

namespace DatedCounts

def contentOf (file : String) : IO (Option Bytes) := do
  try
    return some (← IO.FS.readBinFile file).toList
  catch _ => return none

def usage : String :=
  "usage: --input FILE [--toml FILE] [--row ROW] [--datatypes LIST] [--start DATE] [--end DATE] " ++
    "[--max-next COUNT] [--combine] [--stats]"

/-- Prints the report of a command. The configuration is looked for in the working directory and then
in the home directory. -/
def execute (command : Command) : IO Unit := do
  let directories := (← IO.currentDir).toString :: (← IO.getEnv "HOME").toList
  let files := command.input :: command.config.toList ++ Command.configFiles directories
  let contents ← files.mapM fun file => return (file, ← contentOf file)
  let report := Report.run (fun file => (contents.lookup file).join) directories command
  report.lines.forM IO.println
  report.error.forM fun e => IO.println s!"Error: {e}"

end DatedCounts

def main (args : List String) : IO UInt32 := do
  match DatedCounts.Command.parse? args with
  | none =>
    IO.eprintln DatedCounts.usage
    return 1
  | some command =>
    DatedCounts.execute command
    return 0
