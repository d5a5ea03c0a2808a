import StoreShell.Script

/-!
# Operands of commands

What most commands do first: they tell flags from operands and look at the objects that operands
name. An object is looked up in the cache, or else in the store, in which case the cache takes note
of it.
-/

namespace StoreShell

/-- Arguments told apart: the letters of all flags, and the operands. -/
structure Operands where
  flags : List Char := []
  operands : List String := []
  deriving DecidableEq, Repr

namespace Operands

/-- Whether an argument is one of flags: a hyphen with something behind it. -/
def isFlags (arg : String) : Bool :=
  match arg.toList with
  | '-' :: _ :: _ => true
  | _ => false

/-- Tells flags from operands. Behind `--` there are only operands. -/
def ofArgs : List String → Operands
  | [] => {}
  | arg :: rest =>
    if arg = "--" then { operands := rest }
    else
      let more := ofArgs rest
      if isFlags arg then { more with flags := arg.toList.tail ++ more.flags }
      else { more with operands := arg :: more.operands }

def has (o : Operands) (flag : Char) : Bool := o.flags.contains flag

end Operands

namespace Task

def desk : Task Desk := ask .desk

def resolve (path : String) : Task String := do
  return Path.resolve (← desk).cwd path

def forget (path : String) : Task Unit := do
  ask (.forget (← desk).cache path)

/-- The entry of an object, from the cache or else from the store. -/
def stat (path : String) : Task Entry := do
  let desk ← desk
  let path := Path.resolve desk.cwd path
  match ← ask (.known desk.cache path) with
  | some entry => return entry
  | none =>
    let entry ← ofScript (.request (.stat desk.remote path))
    ask (.note desk.cache path entry)
    return entry

/-- The entry of an object; a failure is given another form. -/
def statOr (path : String) (reword : Failure → Failure) : Task Entry :=
  tryCatch (stat path) fun failure => throw (reword failure)

end Task

end StoreShell
