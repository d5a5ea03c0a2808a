import StoreShell.CommandLine

/-!
# The program

Reads the files that the arguments name and, if lines are to come from there, the input, and writes
what the run shows.
-/

namespace StoreShell

/-- The text of a file, if there is such a file and it is text. -/
def readTextFile (name : String) : IO (Option String) := do
  try return Text.Utf8.decode? (← IO.FS.readBinFile name).toList
  catch _ => return none

/-- The text of the input, needed only if no lines are given otherwise. -/
def readInputText (i : Invocation) : IO String := do
  if i.command.isSome || i.script.isSome then return ""
  (← IO.getStdin).readToEnd

def runProgram (i : Invocation) : IO UInt32 := do
  let names := i.seed.toList ++ i.script.toList
  let texts ← names.mapM fun name => return (name, ← readTextFile name)
  let readText := fun name => (texts.lookup name).join
  match CommandLine.run? readText (← readInputText i) i with
  | none => return 1
  | some result =>
    (← IO.getStdout).write ⟨result.stdout.toArray⟩
    (← IO.getStderr).write ⟨result.stderr.toArray⟩
    return result.code.toNat.toUInt32

end StoreShell

/-- Runs the program with its arguments. -/
def main (args : List String) : IO UInt32 := do
  match StoreShell.Invocation.ofArgs args with
  | none =>
    (← IO.getStderr).write ⟨StoreShell.CommandLine.misused.stderr.toArray⟩
    return 2
  | some i => StoreShell.runProgram i
