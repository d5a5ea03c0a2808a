import StoreShell.Command.Operands

/-!
# Commands that change the store

`mkdir`, `rm` and `mv`. Each change is made in the store first, and then the cache takes note of it,
so that the next listing or pattern sees it.
-/

namespace StoreShell.Command

def mkdirAll (parents : Bool) : List String → Task Unit
  | [] => pure ()
  | dir :: rest => do
    let path ← Task.resolve dir
    let e ← Task.ofScript (.request (.makeFolder (← Task.desk).remote path parents))
    let cache := (← Task.desk).cache
    if parents then Task.ask (.forgetStale cache path)
    Task.ask (.note cache path e)
    mkdirAll parents rest

/-- `mkdir` creates folders, with `-p` also the folders above them. -/
def mkdir : Command := fun args => do
  let o := Operands.ofArgs args
  if o.operands.isEmpty then throw (.usage "mkdir [-p] DIR...")
  mkdirAll (o.has 'p') o.operands

/-- What becomes of one operand of `rm`: it is removed, or passed over because it does not exist. -/
inductive Removal where
  | removed
  | passedOver
  deriving DecidableEq, Repr

/-- Removes the object that an operand names from the store. -/
def removeOperand (recursive force : Bool) (target path : String) : Task Removal := do
  match ← Task.attempt (Task.stat path) with
  | .ok e =>
    if e.isFolder && !recursive then throw (.isDirectory target)
    Task.ofScript (.request (.remove (← Task.desk).remote path recursive))
    return .removed
  | .error failure =>
    if !failure.isNotFound then throw failure
    if force then return .passedOver
    throw (.notFound target)

/-- Removes objects one after the other: whether one of them could not be removed. -/
def rmAll (recursive force : Bool) : List String → Task Bool
  | [] => pure false
  | target :: rest => do
    let path ← Task.resolve target
    match ← Task.attempt (removeOperand recursive force target path) with
    | .ok .passedOver => rmAll recursive force rest
    | .ok .removed =>
      Task.forget path
      rmAll recursive force rest
    | .error failure =>
      Task.print .err s!"rm: {failure.message}\n"
      let _ ← rmAll recursive force rest
      return true

/-- `rm` removes objects: with `-r` also folders, with `-f` without minding those that do not
exist. -/
def rm : Command := fun args => do
  let o := Operands.ofArgs args
  let force := o.has 'f'
  if o.operands.isEmpty && !force then throw (.usage "rm [-rf] PATH...")
  if ← rmAll (o.has 'r' || o.has 'R') force o.operands then throw (.exitStatus 1)

def mvAll (intoFolder : Bool) (dest : String) : List String → Task Unit
  | [] => pure ()
  | source :: rest => do
    let path ← Task.resolve source
    let target := if intoFolder then Path.join dest (Path.fileName path) else dest
    let e ← Task.ofScript (.request (.rename (← Task.desk).remote path target))
    let cache := (← Task.desk).cache
    Task.ask (.forget cache path)
    Task.ask (.note cache target e)
    mvAll intoFolder dest rest

/-- `mv` moves objects into a folder, or one object to a path where nothing is. -/
def mv : Command := fun args => do
  let operands := (Operands.ofArgs args).operands
  let sources := operands.dropLast
  match operands.getLast? with
  | none => throw (.usage "mv SOURCE... DEST")
  | some dest =>
    if sources.isEmpty then throw (.usage "mv SOURCE... DEST")
    let path ← Task.resolve dest
    let intoFolder ←
      match ← Task.attempt (Task.stat path) with
      | .ok e => pure e.isFolder
      | .error failure => if failure.isNotFound then pure false else throw failure
    if 1 < sources.length && !intoFolder then throw (.notADirectory dest)
    mvAll intoFolder path sources

end StoreShell.Command
