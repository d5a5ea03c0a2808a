import StoreShell.Store

/-!
# Remote stores

A shell reaches its store through a service. The service keeps a record of the calls made to it and
may be imperfect in ways that are laid down beforehand: calls that fail, listings that take time to
be made and to arrive, and changes that reach the cache of the client while a listing is under way.
With nothing laid down it answers as the store does.
-/

namespace StoreShell

/-- What a call asks for. -/
inductive Method where
  | listFolder
  | stat
  | read
  | write
  | append
  | makeFolder
  | remove
  | rename
  deriving DecidableEq, Repr

def Method.name : Method → String
  | .listFolder => "list_dir"
  | .stat => "stat"
  | .read => "read_file"
  | .write => "write_file"
  | .append => "append_file"
  | .makeFolder => "mkdir"
  | .remove => "remove"
  | .rename => "rename"

/-- A call with the arguments that are recorded. -/
inductive Call where
  | listFolder (path : String)
  | stat (path : String)
  | read (path : String)
  | write (path : String) (size : Nat)
  | append (path : String) (size : Nat)
  | makeFolder (path : String) (parents : Bool)
  | remove (path : String) (recursive : Bool)
  | rename (source target : String)
  deriving DecidableEq, Repr

namespace Call

def method : Call → Method
  | .listFolder _ => .listFolder
  | .stat _ => .stat
  | .read _ => .read
  | .write .. => .write
  | .append .. => .append
  | .makeFolder .. => .makeFolder
  | .remove .. => .remove
  | .rename .. => .rename

def path : Call → String
  | .listFolder path | .stat path | .read path => path
  | .write path _ | .append path _ => path
  | .makeFolder path _ | .remove path _ => path
  | .rename source _ => source

/-- The arguments of a call behind its path. -/
def further : Call → List String
  | .listFolder _ | .stat _ | .read _ => []
  | .write _ size | .append _ size => [toString size]
  | .makeFolder _ flag | .remove _ flag => [if flag then "true" else "false"]
  | .rename _ target => [target]

/-- The line of the record for a call. -/
def describe (c : Call) : String :=
  " ".intercalate (c.method.name :: c.path :: c.further)

end Call

/-- Calls that fail. -/
structure Fault where
  /-- The name of the method. -/
  method : String
  /-- The path of the calls, or `*` for all paths. -/
  path : String
  failure : Failure
  /-- How many calls are still to fail, or none for all. -/
  left : Option Nat := none

namespace Fault

/-- Whether a call is to fail. -/
def concerns (f : Fault) (c : Call) : Bool :=
  f.left ≠ some 0 && f.method = c.method.name && (f.path = "*" || f.path = c.path)

/-- The faults once the first one that concerns a call is used, and how the call fails. -/
def take (c : Call) : List Fault → Option Failure × List Fault
  | [] => (none, [])
  | f :: rest =>
    if f.concerns c then (some f.failure, { f with left := f.left.map (· - 1) } :: rest)
    else
      let (failure, rest) := take c rest
      (failure, f :: rest)

end Fault

/-- What happens to the cache of the client while a folder is listed. -/
inductive ChurnAction where
  /-- A file appears in the folder. -/
  | add
  /-- The children of the folder are forgotten. -/
  | invalidate
  /-- Everything is forgotten. -/
  | clear
  deriving DecidableEq, Repr

/-- Something that happens whenever a folder is listed, so many times. -/
structure Churn where
  path : String
  action : ChurnAction
  /-- How often it may still happen, or none for always. -/
  left : Option Nat := none
  /-- How often it has happened. -/
  used : Nat := 0

/-- A store behind a service. -/
structure Remote where
  store : Store
  /-- The calls made, the latest first. -/
  calls : List Call := []
  /-- How many times a folder was listed. -/
  listings : Nat := 0
  faults : List Fault := []
  churn : List Churn := []
  /-- The number of the cache that what goes with listings happens to. A store keeps it when another
  store, with another cache, takes its place. -/
  churned : Nat := 0
  /-- How long a listing takes to be made. -/
  listDelay : Nat := 0
  /-- How long a listing takes to arrive. -/
  lateDelay : Nat := 0
  /-- Whether listings come in reverse order. -/
  reversed : Bool := false

namespace Remote

/-- Records a call, and fails it if that is laid down. -/
def receive (r : Remote) (c : Call) : Except Failure Unit × Remote :=
  let (failure, faults) := Fault.take c r.faults
  (match failure with | some failure => .error failure | none => .ok (),
    { r with calls := c :: r.calls, faults })

/-- Answers a call that leaves the store as it is. -/
def query (r : Remote) (c : Call) (look : Store → Except Failure α) : Except Failure α × Remote :=
  match r.receive c with
  | (.error failure, r) => (.error failure, r)
  | (.ok _, r) => (look r.store, r)

/-- Answers a call that changes the store in place. -/
def change (r : Remote) (c : Call) (act : Store.Edit α) : Except Failure α × Remote :=
  match r.receive c with
  | (.error failure, r) => (.error failure, r)
  | (.ok _, r) =>
    let (answer, store) := act.apply r.store
    (answer, { r with store })

def stat (r : Remote) (path : String) : Except Failure Entry × Remote :=
  r.query (.stat path) (·.stat path)

def read (r : Remote) (path : String) : Except Failure Bytes × Remote :=
  r.query (.read path) (·.read path)

/-- Creates a file, or replaces its content or adds to it. -/
def upload (r : Remote) (path : String) (content : Bytes) (append : Bool) :
    Except Failure Entry × Remote :=
  if append then r.change (.append path content.length) (.append path content)
  else r.change (.write path content.length) (.write path content)

def makeFolder (r : Remote) (path : String) (parents : Bool) : Except Failure Entry × Remote :=
  r.change (.makeFolder path parents) (.makeFolder path parents)

def remove (r : Remote) (path : String) (recursive : Bool) : Except Failure Unit × Remote :=
  r.change (.remove path recursive) (.remove path recursive)

def rename (r : Remote) (source target : String) : Except Failure Entry × Remote :=
  r.change (.rename source target) (.rename source target)

/-- What the service finds in a folder when it looks. -/
def look (r : Remote) (folder : String) : Except Failure (List Entry) :=
  (r.store.list folder).map fun entries => if r.reversed then entries.reverse else entries

end Remote

end StoreShell
