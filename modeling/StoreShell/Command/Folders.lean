import StoreShell.Children
import StoreShell.Command.Operands

/-!
# Commands that look at folders

`ls` and `cd`.
-/

namespace StoreShell.Command

/-- A number in a field of ten characters. -/
def field (n : Nat) : String :=
  let digits := toString n
  String.ofList (List.replicate (10 - digits.length) ' ') ++ digits

def entryLine (long : Bool) (e : Entry) (shown : String) : String :=
  let kind := if e.isFolder then "d" else "-"
  if long then s!"{kind} {field e.size} {shown}\n" else shown ++ "\n"

def childLines (o : Operands) (children : List Entry) : String :=
  let shown := children.filter fun e => o.has 'a' || !(e.name.toList.head? == some '.')
  "".intercalate (shown.map fun e => entryLine (o.has 'l') e e.name)

/-- What stands above the children of a folder if there are several operands: an empty line unless
it is the first thing written, and the operand. -/
def header (operand sofar : String) : String :=
  (if sofar.isEmpty then "" else "\n") ++ operand ++ ":\n"

/-- A path that does not exist is reported as it was written. -/
def asWritten (operand : String) : Failure → Failure
  | .notFound _ => .notFound operand
  | failure => failure

/-- Examines operands one after the other, with what is to be written so far: everything to be
written, and whether an operand could not be examined. -/
def lsOperands (o : Operands) (cache remote : Nat) (headers : Bool) (sofar : String)
    (failed : Bool) : List String → Task (String × Bool)
  | [] => pure (sofar, failed)
  | operand :: rest => do
    let path ← Task.resolve operand
    match ← Task.attempt (Task.stat path) with
    | .error failure =>
      Task.print .err s!"ls: {(asWritten operand failure).message}\n"
      lsOperands o cache remote headers sofar true rest
    | .ok e =>
      if e.isFolder then
        let children ← Task.ensureChildren cache remote path
        let sofar := if headers then sofar ++ header operand sofar else sofar
        lsOperands o cache remote headers (sofar ++ childLines o children) failed rest
      else
        lsOperands o cache remote headers (sofar ++ entryLine (o.has 'l') e operand) failed rest

/-- `ls` writes the files among its operands and the children of the folders among them, by default
those of the working directory. -/
def ls : Command := fun args => do
  let o := Operands.ofArgs args
  let operands := if o.operands.isEmpty then ["."] else o.operands
  let desk ← Task.desk
  let (text, failed) ←
    lsOperands o desk.cache desk.remote (1 < operands.length) "" false operands
  Task.print .out text
  if failed then throw (.exitStatus 2)

/-- Makes a folder the working directory and, if wanted, has it listed in the background. -/
def changeTo (target : String) : Task Unit := do
  let path ← Task.resolve target
  let e ← Task.statOr path (asWritten target)
  if !e.isFolder then throw (.notADirectory target)
  Task.ask (.enter path)
  if (← Task.desk).settings.prefetchOnCd then Task.ask (.prefetch path)

/-- `cd` makes a folder the working directory, by default the home folder. -/
def cd : Command
  | [] => do changeTo (← Task.desk).settings.home
  | [target] => changeTo target
  | _ => throw (.usage "cd [DIR]")

end StoreShell.Command
