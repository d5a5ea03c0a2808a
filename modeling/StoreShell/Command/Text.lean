import StoreShell.Command.Operands

/-!
# Commands that write texts

`echo`, `cat`, `pwd`, and the two commands that do nothing but succeed or fail.
-/

namespace StoreShell.Command

/-- `true` succeeds. -/
def succeed : Command := fun _ => pure ()

/-- `false` fails. -/
def fail : Command := fun _ => throw (.exitStatus 1)

/-- `echo` writes its arguments on one line, which `-n` leaves open. -/
def echo : Command
  | "-n" :: words => Task.print .out (" ".intercalate words)
  | words => Task.print .out (" ".intercalate words ++ "\n")

def pwd : Command := fun _ => do
  Task.print .out ((← Task.desk).cwd ++ "\n")

def readOperand (arg : String) : Task Bytes := do
  let desk ← Task.desk
  let path := Path.resolve desk.cwd arg
  if (← Task.ask (.known desk.cache path)).any Entry.isFolder then throw (.isDirectory arg)
  Task.ofScript (.request (.read desk.remote path))

/-- Writes files one after the other: whether one of them could not be read. -/
def catFiles : List String → Task Bool
  | [] => pure false
  | arg :: rest => do
    if arg = "-" then
      Task.copy
      catFiles rest
    else
      match ← Task.attempt (readOperand arg) with
      | .ok content =>
        Task.write .out content
        catFiles rest
      | .error failure =>
        Task.print .err s!"cat: {failure.message}\n"
        let _ ← catFiles rest
        return true

/-- `cat` writes files one after the other, or its input if there are no arguments. -/
def cat : Command
  | [] => Task.copy
  | args => do
    if ← catFiles args then throw (.exitStatus 1)

end StoreShell.Command
