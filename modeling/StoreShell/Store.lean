import Std.Data.TreeMap
import StoreShell.Entry
import StoreShell.Failure
import StoreShell.Path

/-!
# Stores

A store holds objects under the normal forms of their paths. `insertFile` and `insertFolder` fill it
and create the folders that are missing; `write`, `append`, `makeFolder`, `remove` and `rename` are
what a client may ask for. A request is an `Edit`: it checks the store and changes it in place, step
by step, and may fail on the way. `Edit.apply` gives the answer of a request with the store that it
leaves, `Edit.result` only tells of the store if the request succeeds.

Times are told apart by how often the clock had been read before.
-/

namespace StoreShell

/-- An object: what is told about it, its content, when it was made, and when it was last written or
moved. -/
structure StoredObject where
  entry : Entry
  content : Bytes
  created : Nat
  modified : Nat
  deriving DecidableEq, Repr

namespace StoredObject

def folder (name : String) (id time : Nat) : StoredObject := ⟨.folder name id, [], time, time⟩

def file (name : String) (id : Nat) (content : Bytes) (time : Nat) : StoredObject :=
  ⟨.file name id content, content, time, time⟩

def rewritten (o : StoredObject) (content : Bytes) (time : Nat) : StoredObject :=
  ⟨.file o.entry.name o.entry.id content, content, o.created, time⟩

end StoredObject

/-- Objects by path, the number that the next new one gets, whether changes are refused, and the
next time that the clock shows. -/
structure Store where
  objects : Std.TreeMap String StoredObject
  nextId : Nat
  readOnly : Bool
  clock : Nat

namespace Store

/-- A store with nothing but its root folder. -/
def empty : Store where
  objects := (∅ : Std.TreeMap String StoredObject).insert Path.root (.folder "" 0 0)
  nextId := 1
  readOnly := false
  clock := 1

/-- The object at a path in normal form. -/
def get? (s : Store) (path : String) : Option StoredObject := s.objects[path]?

/-- Puts an object at a path in normal form. Its stamp uses up the time that the clock shows. -/
def put (s : Store) (path : String) (o : StoredObject) : Entry × Store :=
  (o.entry, { s with objects := s.objects.insert path o, clock := s.clock + 1 })

def putFolder (s : Store) (path : String) : Entry × Store :=
  { s with nextId := s.nextId + 1 }.put path (.folder (Path.fileName path) s.nextId s.clock)

def putFile (s : Store) (path : String) (content : Bytes) : Entry × Store :=
  { s with nextId := s.nextId + 1 }.put path (.file (Path.fileName path) s.nextId content s.clock)

/-- Gives an object another content. -/
def replace (s : Store) (path : String) (o : StoredObject) (content : Bytes) : Entry × Store :=
  s.put path (o.rewritten content s.clock)

/-- The folders above a path that a store lacks, the outermost first, looking no further than the
first one that it has. The number bounds how many folders there are above the path. -/
def missingParents (s : Store) (path : String) : Nat → List String
  | 0 => []
  | depth + 1 =>
    match Path.parent? path with
    | none => []
    | some parent =>
      if s.objects.contains parent then []
      else s.missingParents parent depth ++ [parent]

/-- Creates the folders above a path that are missing, the outermost first. -/
def ensureParents (s : Store) (path : String) : Store :=
  (s.missingParents path path.toList.length).foldl (fun s folder => (s.putFolder folder).2) s

/-- Puts a file, whatever was at its path before. -/
def insertFile (s : Store) (path : String) (content : Bytes) : Store :=
  let path := Path.normalize path
  ((s.ensureParents path).putFile path content).2

/-- Puts a folder unless there is an object at its path. -/
def insertFolder (s : Store) (path : String) : Store :=
  let path := Path.normalize path
  let s := s.ensureParents path
  if s.objects.contains path then s else (s.putFolder path).2

def contents? (s : Store) (path : String) : Option Bytes :=
  ((s.get? (Path.normalize path)).filter fun o => !o.entry.isFolder).map StoredObject.content

/-- The entries of the objects in a folder, by name. -/
def list (s : Store) (path : String) : Except Failure (List Entry) :=
  let path := Path.normalize path
  match s.get? path with
  | none => .error (.notFound path)
  | some o =>
    if o.entry.isFolder then
      .ok <| (s.objects.toList.filter fun (p, _) => Path.parent? p == some path).map
        fun (_, o) => o.entry
    else .error (.notADirectory path)

def stat (s : Store) (path : String) : Except Failure Entry :=
  let path := Path.normalize path
  match s.get? path with
  | none => .error (.notFound path)
  | some o => .ok o.entry

/-- The content of a file, or why there is none. -/
def read (s : Store) (path : String) : Except Failure Bytes :=
  let path := Path.normalize path
  match s.get? path with
  | none => .error (.notFound path)
  | some o => if o.entry.isFolder then .error (.isDirectory path) else .ok o.content

/-- Where an object that is `source` or below it is found once `source` is called `target`. -/
def movedPath (source target path : String) : String :=
  target ++ String.ofList (path.toList.drop source.toList.length)

/-- The object itself gets the name of its new place, those below it keep theirs. -/
def movedObject (time : Nat) (source target path : String) (o : StoredObject) : StoredObject :=
  if path = source then
    { o with entry.name := Path.fileName target, modified := time }
  else o

/-- Takes one object out and puts it back under its new path, and keeps the entry of `source` once
that has come. -/
def moveOne (time : Nat) (source target : String) (moved : Option Entry × Store) (path : String) :
    Option Entry × Store :=
  match moved.2.get? path with
  | none => moved
  | some o =>
    let o := movedObject time source target path o
    let objects := (moved.2.objects.erase path).insert (movedPath source target path) o
    (if path = source then some o.entry else moved.1, { moved.2 with objects })

/-- Moves `source` and everything below it, one object after the other in the order of their
paths. -/
def moveAll (s : Store) (source target : String) : Option Entry × Store :=
  (s.objects.keys.filter (Path.isWithin · source)).foldl (moveOne s.clock source target)
    (none, { s with clock := s.clock + 1 })

/-- Work on a store in place. What was done before a failure stays done. -/
abbrev Edit (α : Type) := ExceptT Failure (StateM Store) α

namespace Edit

/-- What an edit of a store comes to, and the store that it leaves. -/
def apply (e : Edit α) (s : Store) : Except Failure α × Store := e.run.run s

/-- What an edit of a store comes to, with the store after it, or why it fails. -/
def result (e : Edit α) (s : Store) : Except Failure (α × Store) :=
  match e.apply s with
  | (.ok a, s) => .ok (a, s)
  | (.error failure, _) => .error failure

section Steps

variable {α β : Type} (s : Store)

@[simp] theorem apply_pure (a : α) : (pure a : Edit α).apply s = (.ok a, s) := rfl

@[simp] theorem apply_get : (get : Edit Store).apply s = (.ok s, s) := rfl

@[simp] theorem apply_modify (f : Store → Store) :
    (modify f : Edit Unit).apply s = (.ok (), f s) := rfl

@[simp] theorem apply_modifyGet (f : Store → α × Store) :
    (modifyGet f : Edit α).apply s = (.ok (f s).1, (f s).2) := rfl

/-- One edit after the other: the second one begins with the store that the first one leaves. -/
theorem apply_bind (e : Edit α) (f : α → Edit β) :
    (e >>= f).apply s =
      match e.apply s with
      | (.ok a, s) => (f a).apply s
      | (.error failure, s) => (.error failure, s) := by
  change (ExceptT.bindCont (fun a => f a) (e s).1).run (e s).2 = _
  rw [apply]
  change _ = match e s with
    | (.ok a, s) => (f a).apply s
    | (.error failure, s) => (.error failure, s)
  rcases e s with ⟨_ | _, s⟩ <;> rfl

end Steps

/-- Fails unless something is as it has to be. -/
def check (fine : Bool) (failure : Failure) : Edit Unit :=
  if fine then pure () else throw failure

/-- A store that is read-only refuses every change. -/
def checkWritable : Edit Unit := do
  check (!(← get).readOnly) (.remote "storage is read-only")

/-- An object can only be put where its parent is a folder. -/
def checkParent (path : String) : Edit Unit := do
  match Path.parent? path with
  | none => pure ()
  | some parent =>
    match (← get).get? parent with
    | none => throw (.notFound parent)
    | some o => check o.entry.isFolder (.notADirectory parent)

/-- Creates a file at a path in normal form or replaces its content. -/
def storeFile (path : String) (content : Bytes) : Edit Entry := do
  checkParent path
  match (← get).get? path with
  | none => modifyGet (·.putFile path content)
  | some o =>
    check (!o.entry.isFolder) (.isDirectory path)
    modifyGet (·.replace path o content)

/-- Creates a file or replaces its content. -/
def write (path : String) (content : Bytes) : Edit Entry := do
  checkWritable
  storeFile (Path.normalize path) content

/-- Creates a file or adds to its content. -/
def append (path : String) (content : Bytes) : Edit Entry := do
  checkWritable
  let path := Path.normalize path
  match (← get).get? path with
  | none => storeFile path content
  | some o =>
    check (!o.entry.isFolder) (.isDirectory path)
    storeFile path (o.content ++ content)

/-- Creates a folder, with the folders above it if `parents` is set. -/
def makeFolder (path : String) (parents : Bool) : Edit Entry := do
  checkWritable
  let path := Path.normalize path
  match (← get).get? path with
  | some o =>
    check (parents && o.entry.isFolder) (.alreadyExists path)
    return o.entry
  | none =>
    if parents then modify (·.ensureParents path) else checkParent path
    modifyGet (·.putFolder path)

/-- Removes an object, with everything below it if `recursive` is set. -/
def remove (path : String) (recursive : Bool) : Edit Unit := do
  checkWritable
  let path := Path.normalize path
  check (path ≠ Path.root) (.remote "refusing to remove the root folder")
  let s ← get
  check (s.objects.contains path) (.notFound path)
  check (recursive || !s.objects.keys.any (Path.isBelow · path))
    (.remote s!"{path}: folder not empty")
  modify fun s => { s with objects := s.objects.filter fun p _ => !Path.isWithin p path }

/-- Moves an object, with everything below it, to a path where nothing is. -/
def rename (source target : String) : Edit Entry := do
  checkWritable
  let source := Path.normalize source
  let target := Path.normalize target
  let s ← get
  check (s.objects.contains source) (.notFound source)
  check (!s.objects.contains target) (.alreadyExists target)
  check (!Path.isBelow target source) (.remote s!"cannot move {source} into itself")
  checkParent target
  match ← modifyGet (·.moveAll source target) with
  | some e => return e
  | none => throw (.internal "renamed entry vanished")

end Edit

def write (s : Store) (path : String) (content : Bytes) : Except Failure (Entry × Store) :=
  (Edit.write path content).result s

def append (s : Store) (path : String) (content : Bytes) : Except Failure (Entry × Store) :=
  (Edit.append path content).result s

def makeFolder (s : Store) (path : String) (parents : Bool) : Except Failure (Entry × Store) :=
  (Edit.makeFolder path parents).result s

def remove (s : Store) (path : String) (recursive : Bool) : Except Failure Store :=
  ((Edit.remove path recursive).result s).map Prod.snd

def rename (s : Store) (source target : String) : Except Failure (Entry × Store) :=
  (Edit.rename source target).result s

end Store

end StoreShell
