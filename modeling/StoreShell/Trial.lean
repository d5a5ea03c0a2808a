import StoreShell.Execution

/-!
# Trials

A trial takes a shell through steps one at a time and looks at it in between. Besides running lines,
a trial may change the store behind the back of the shell, look into the cache and change it, and
let time pass. What the functions here do to a world is what a step does; they answer with `none`
when the step never ends.
-/

namespace StoreShell.Trial

/-- A step of a trial. -/
abbrev Step (α : Type) := World → Option (α × World)

/-- The remote stores of a trial. -/
structure Supply where
  /-- What the store is filled with in order: folders, and files with their contents. -/
  objects : List (String × Option Bytes) := []
  readOnly : Bool := false
  faults : List Fault := []
  churn : List Churn := []
  listDelay : Nat := 0
  lateDelay : Nat := 0
  reversed : Bool := false

/-- Fills a store in order. -/
def fill (objects : List (String × Option Bytes)) : Store :=
  objects.foldl (fun s (path, content) =>
    match content with
    | none => s.insertFolder path
    | some content => s.insertFile path content) .empty

/-- The remote store that is asked for. -/
def Supply.remote (s : Supply) : Remote :=
  { store := { fill s.objects with readOnly := s.readOnly }
    faults := s.faults
    churn := s.churn
    listDelay := s.listDelay
    lateDelay := s.lateDelay
    reversed := s.reversed }

def start (supply : Supply) (settings : Settings) (area : Option Area) (cwd : Option String) :
    World :=
  let w : World := { settings, remotes := [supply.remote] }
  let w := match area with
    | none => w
    | some area => w.switchArea area none
  match cwd with
  | none => w
  | some cwd => w.setCwd cwd

/-- What goes with listings of the current store happens to the cache that is current when the step
begins. -/
def beginStep (w : World) : World :=
  let (_, w) := w.onRemote w.remote fun r => ((), { r with churned := w.cache })
  { w with cancelled := false }

def settle (w : World) : World := w.runBackground

/-- The record of the calls to the current store in order; it is empty afterwards. -/
def takeCalls (w : World) : List String × World :=
  w.onRemote w.remote fun r => ((r.calls.map Call.describe).reverse, { r with calls := [] })

/-- What a line shows. -/
structure LineResult where
  stdout : String
  stderr : String
  verdict : Verdict

def line (r : Registry) (text : String) (cancelled : Bool) (out err : Refusal) :
    Step LineResult := fun w =>
  (runLine r text ⟨{ w with cancelled }, .withRefusals out err⟩).map fun (verdict, stage) =>
    let shown := fun which => Text.Utf8.decodeLossy (stage.outlets.callers.get which).received.bytes
    (⟨shown .out, shown .err, verdict⟩, stage.world)

def task (t : Task α) : Step (Except Failure α) := fun w => w.run? t.toScript

def onCache (f : Cache → α × Cache) : Step α := fun w => some (w.onCache w.cache f)

def ofCache (f : Cache → α) : Step α := onCache fun c => (f c, c)

def onStore (f : Store → α × Store) : Step α := fun w =>
  some <| w.onRemote w.remote fun r =>
    let (a, store) := f r.store
    (a, { r with store })

def ofStore (f : Store → α) : Step α := onStore fun s => (f s, s)

/-- Does what a client may ask of the current store, without its service. -/
def change (act : Store.Edit α) : Step (Except Failure α) := onStore act.apply

/-- Lists a folder of the current store, without its service but no faster. -/
def listFolder (path : String) : Step (Except Failure (List Entry)) := fun w =>
  let (delay, w) := w.onRemote w.remote fun r =>
    (r.listDelay, { r with listings := r.listings + 1 })
  let w := w.waitUntil (w.clock + delay)
  some ((w.remoteAt w.remote).store.list path, w)

/-- An object that a walk through the store has found. -/
structure Found where
  path : String
  entry : Entry
  content : Option Bytes

/-- Lists folders, the folders in them, and so on, with what was found before. The number bounds how
many folders there are. -/
def walk (found : List Found) : Nat → List String → Step (List Found)
  | 0, _ => fun w => some (found, w)
  | _, [] => fun w => some (found, w)
  | fuel + 1, folder :: rest => fun w => do
    let (entries, w) ← listFolder folder w
    let store := (w.remoteAt w.remote).store
    let here := (entries.toOption.getD []).map fun e =>
      let path := Path.join folder e.name
      (⟨path, e, store.contents? path⟩ : Found)
    let folders := (here.filter (·.entry.isFolder)).map Found.path
    walk (found ++ here) fuel (rest ++ folders) w

/-- All objects that can be reached from the root, by path. -/
def tree : Step (List Found) := fun w => do
  let (found, w) ← walk [] ((w.remoteAt w.remote).store.objects.size + 1) [Path.root] w
  return (found.mergeSort fun a b => a.path ≤ b.path, w)

def sleep (duration : Nat) : Step Unit := fun w => some ((), w.waitUntil (w.clock + duration))

def setFaults (faults : List Fault) : Step Unit := fun w =>
  some (w.onRemote w.remote fun r => ((), { r with faults }))

def prefetch (path : String) : Step Bool := fun w => some (w.prefetch path)

/-- The children of a folder as a command would get them. -/
def ensure (path : String) : Step (Except Failure (List Entry)) := fun w =>
  task (Task.ensureChildren w.cache w.remote path) w

/-- Lists folders from a folder downwards, so many levels deep. -/
def preload (path : String) (depth : Nat) : Step (Except Failure Nat) := fun w =>
  task (Task.preload w.cache w.remote path depth) w

def expand (words : List Word) (cwd : Option String) (quoted : Bool) :
    Step (Except Failure (List String)) := fun w =>
  task (Glob.expand ⟨w.cache, w.remote, cwd.getD w.cwd, quoted⟩ words) w

def read (path : String) : Step (Except Failure Bytes) := fun w =>
  task (readInput w.remote w.cache path) w

def write (path : String) (append : Bool) (pieces : List Bytes) (abandon : Bool) :
    Step (Except Failure String) := fun w =>
  let work : Task String := do
    let r ← Redirect.create w.remote w.cache path append
    if !abandon then r.finish pieces.flatten
    return Path.normalize path
  task work w

/-- Folders that may be shown as loaded: the root, the working directory, all known paths, and all
folders above these. -/
def shownFolders (w : World) : List String :=
  let named := w.cwd :: (w.cacheAt w.cache).paths
  (Path.root :: named.flatMap fun path => path :: above path path.toList.length).mergeSort
    (fun a b => a ≤ b) |>.eraseDups
where
  /-- The folders above a path. -/
  above (path : String) : Nat → List String
    | 0 => []
    | depth + 1 =>
      match Path.parent? path with
      | none => []
      | some parent => parent :: above parent depth

/-- The folders whose children are known. -/
def loaded (w : World) : List String :=
  (shownFolders w).filter (w.cacheAt w.cache).isLoaded

end StoreShell.Trial
