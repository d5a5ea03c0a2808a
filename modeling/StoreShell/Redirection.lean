import StoreShell.Glob.Expansion

/-!
# Redirections

Opening the redirections of a pipeline before its commands run, and closing them afterwards. Input
is read when it is opened. Output is kept until the command has ended and is written to the store
then, so that nothing is written for a command that is cut off. The path `/dev/null` gives no
input and takes any output, and never reaches the store.
-/

namespace StoreShell

/-- The path that gives nothing and takes everything. -/
def nullPath : String := "/dev/null"

/-- An opened redirection of an output. -/
inductive Redirect where
  | discard
  /-- What is kept goes to a file of a store, and a cache takes note of it. -/
  | upload (remote cache : Nat) (path : String) (append : Bool)
  deriving DecidableEq, Repr

namespace Redirect

/-- Where output goes while the command runs. -/
def sink (r : Redirect) (which : Output) : Sink :=
  match r with
  | .discard => .discard
  | .upload .. => .saved which

/-- The entry of an object that may not exist, from a cache or else from a store. -/
def statIfAny (remote cache : Nat) (path : String) : Task (Option Entry) := do
  match ← Task.ask (.known cache path) with
  | some e => return some e
  | none =>
    match ← Task.ask (.stat remote path) with
    | .ok e => return some e
    | .error failure => if failure.isNotFound then return none else throw failure

/-- The entry of a folder, from a cache or else from a store. -/
def statParent (remote cache : Nat) (path : String) : Task Entry := do
  match ← Task.ask (.known cache path) with
  | some e => return e
  | none => Task.ofScript (.request (.stat remote path))

/-- A file can be written where a file is, or where nothing is and the parent is a folder. -/
def checkTarget (remote cache : Nat) (path : String) : Task Unit := do
  match ← statIfAny remote cache path with
  | some e => if e.isFolder then throw (.isDirectory path)
  | none =>
    match Path.parent? path with
    | none => throw (.isDirectory path)
    | some parent =>
      if !(← statParent remote cache parent).isFolder then throw (.notADirectory parent)

def create (remote cache : Nat) (path : String) (append : Bool) : Task Redirect := do
  let path := Path.normalize path
  checkTarget remote cache path
  return .upload remote cache path append

/-- Opens a redirection of an output. -/
def open? (target : Target) : Task Redirect := do
  let desk ← Task.ask .desk
  let path := Path.resolve desk.cwd target.path
  if path = nullPath then return .discard
  create desk.remote desk.cache path target.append

/-- Writes to the store what was kept. -/
def finish (r : Redirect) (content : Bytes) : Task Unit := do
  match r with
  | .discard => return
  | .upload remote cache path append =>
    let e ← Task.ofScript (.request (.upload remote path content append))
    Task.ask (.note cache path e)

end Redirect

/-- The content of a file of a store that is opened for input. -/
def readInput (remote cache : Nat) (path : String) : Task Bytes := do
  if (← Task.ask (.known cache path)).any Entry.isFolder then throw (.isDirectory path)
  Task.ofScript (.request (.read remote path))

/-- Opens a redirection of the input: all of it. -/
def openInput (path : String) : Task Bytes := do
  let desk ← Task.ask .desk
  let path := Path.resolve desk.cwd path
  if path = nullPath then return []
  readInput desk.remote desk.cache path

/-- A pipeline whose redirections are open and whose patterns are expanded. -/
structure Prepared where
  input : Bytes
  output : Option Redirect
  error : Option Redirect
  /-- The arguments of each command. -/
  args : List (List String)

namespace Prepared

def onSome (a : Option α) (f : α → Task β) : Task (Option β) :=
  match a with
  | none => pure none
  | some a => some <$> f a

def expandAll (site : Glob.Site) : List Segment → Task (List (List String))
  | [] => pure []
  | s :: rest => do
    let args ← Glob.expand site s.args
    return args :: (← expandAll site rest)

/-- Opens the redirections of a pipeline, input first, and expands the patterns. -/
def ofPipeline (p : Pipeline) : Task Prepared := do
  let input ← onSome (p.segments.head?.bind Segment.input) openInput
  let output ← onSome (p.segments.getLast?.bind Segment.output) Redirect.open?
  let error ← onSome (p.segments.getLast?.bind Segment.error) Redirect.open?
  let desk ← Task.ask .desk
  let site : Glob.Site := ⟨desk.cache, desk.remote, desk.cwd, desk.settings.expandQuoted⟩
  let args ← expandAll site p.segments
  return ⟨input.getD [], output, error, args⟩

end Prepared

end StoreShell
