import StoreShell.Stream
import StoreShell.Text.Utf8
import StoreShell.World

/-!
# Scripts

A script is a piece of work of a shell as a value: a tree of what it asks for, with a branch for
each answer. Commands, the expansion of patterns and the opening of redirections are scripts. What a
script may ask for is a `Request` to the world, a listing, or something of the three streams of its
command. The meaning of a script is given where scripts run: alone in `Script.Alone`, as one of
several commands of a pipeline in `Script.Together`.

Reading input to its end takes as many steps as there is input. So `copy` and `collect` are single
nodes that carry how far they have come, and the tree of a script stays well-founded.
-/

namespace StoreShell

/-- What a script sees of the shell when it looks: the working directory, the numbers of the current
cache and remote store, and the settings. -/
structure Desk where
  cwd : String
  cache : Nat
  remote : Nat
  settings : Settings

/-- What a script can ask of the world. Each request is answered at once. -/
inductive Request where
  /-- How things stand. -/
  | desk
  /-- To make a folder the working directory. -/
  | enter (folder : String)
  /-- To list a folder in the background. -/
  | prefetch (folder : String)
  /-- To cancel the line. -/
  | cancel
  /-- What a cache knows about an object. -/
  | known (cache : Nat) (path : String)
  /-- Which children of a folder a cache knows to belong to a pattern. -/
  | matching (cache : Nat) (folder pattern : String)
  /-- To have a cache take note of an object. -/
  | note (cache : Nat) (path : String) (entry : Entry)
  /-- To have a cache forget an object. -/
  | forget (cache : Nat) (path : String)
  /-- To have a cache forget what making the folders above a path may have changed. -/
  | forgetStale (cache : Nat) (path : String)
  /-- To give back the claim on a folder, with the listing if there is one. The answer is the
  children of the folder if the listing was installed. -/
  | finishFetch (cache : Nat) (folder : String) (entries : Option (List Entry))
  /-- The entry of an object in a store. -/
  | stat (remote : Nat) (path : String)
  /-- The content of a file in a store. -/
  | read (remote : Nat) (path : String)
  /-- To write a file in a store. -/
  | upload (remote : Nat) (path : String) (content : Bytes) (append : Bool)
  /-- To create a folder in a store. -/
  | makeFolder (remote : Nat) (path : String) (parents : Bool)
  /-- To remove an object from a store. -/
  | remove (remote : Nat) (path : String) (recursive : Bool)
  /-- To move an object in a store. -/
  | rename (remote : Nat) (source target : String)

/-- What a request is answered with. -/
abbrev Request.Answer : Request → Type
  | .desk => Desk
  | .known .. => Option Entry
  | .matching .. => List String
  | .finishFetch .. => Option (List Entry)
  | .stat .. | .upload .. | .makeFolder .. | .rename .. => Except Failure Entry
  | .read .. => Except Failure Bytes
  | .remove .. => Except Failure Unit
  | .enter _ | .prefetch _ | .cancel | .note .. | .forget .. | .forgetStale .. => Unit

/-- Answers a request. -/
def World.answer (w : World) : (r : Request) → r.Answer × World
  | .desk => (⟨w.cwd, w.cache, w.remote, w.settings⟩, w)
  | .enter folder => ((), w.setCwd folder)
  | .prefetch folder => ((), (w.prefetch folder).2)
  | .cancel => ((), { w with cancelled := true })
  | .known cache path => ((w.cacheAt cache).get? path, w)
  | .matching cache folder pattern => ((w.cacheAt cache).matching folder pattern, w)
  | .note cache path entry => w.onCache cache fun c => ((), c.add entry path)
  | .forget cache path => w.onCache cache fun c => ((), c.remove path)
  | .forgetStale cache path => w.onCache cache fun c => ((), c.forgetStale path)
  | .finishFetch cache folder entries => w.onCache cache fun c =>
    match c.finishFetch folder entries with
    | (true, c) => (c.children? folder, c)
    | (false, c) => (none, c)
  | .stat remote path => w.onRemote remote (·.stat path)
  | .read remote path => w.onRemote remote (·.read path)
  | .upload remote path content append => w.onRemote remote (·.upload path content append)
  | .makeFolder remote path parents => w.onRemote remote (·.makeFolder path parents)
  | .remove remote path recursive => w.onRemote remote (·.remove path recursive)
  | .rename remote source target => w.onRemote remote (·.rename source target)

/-- What copying the input to the output does next. -/
inductive CopyPhase where
  /-- Read as much as there is room for. -/
  | fill
  /-- Write what was read. -/
  | push
  /-- The output takes nothing, so read more. -/
  | topUp
  /-- The input has nothing and all of it is written, so flush. -/
  | idle
  /-- The input is at its end and all of it is written, so flush a last time. -/
  | finish
  /-- Wait for the output to take what is held, or for more input if that is what was missing. -/
  | wait (forInput : Bool)
  deriving DecidableEq, Repr

/-- How far copying the input to the output has come. -/
structure Copying where
  /-- What was read and is not written yet. -/
  held : Bytes := []
  /-- How many more bytes may be read before everything held is written. -/
  room : Nat := 8192
  /-- Whether the input is at its end. -/
  ended : Bool := false
  /-- Whether anything was written since the output was flushed. -/
  unflushed : Bool := false
  phase : CopyPhase := .fill
  deriving DecidableEq, Repr

/-- A piece of work that ends with an `α`. -/
inductive Script (α : Type) where
  /-- It ends. -/
  | done (result : α)
  /-- It asks the world. -/
  | ask (request : Request) (next : request.Answer → Script α)
  /-- It needs the children of a folder, which it gets if they are known and else may list, being
  the only one to do so. -/
  | claim (cache : Nat) (folder : String) (next : Option (List Entry) → Script α)
  /-- It lists a folder. -/
  | list (listing : Listing) (next : Except Failure (List Entry) → Script α)
  /-- It writes bytes. -/
  | write (dest : Output) (bytes : Bytes) (next : Except StreamError Unit → Script α)
  /-- It flushes an output. -/
  | flush (dest : Output) (next : Except StreamError Unit → Script α)
  /-- It copies its input to its output, up to the end. -/
  | copy (copying : Copying) (next : Except StreamError Unit → Script α)
  /-- It reads its input up to the end or until there is no more room. -/
  | collect (room : Option Nat) (sofar : Chunks) (next : Bytes → Script α)
  /-- It looks at what was kept for the redirection of an output. -/
  | saved (which : Output) (next : Bytes → Script α)
  /-- It lets go of its three streams. -/
  | release (next : Script α)
  /-- It never ends. -/
  | hang

namespace Script

/-- One piece of work after the other. -/
def bind (s : Script α) (f : α → Script β) : Script β :=
  match s with
  | .done a => f a
  | .ask r next => .ask r fun a => (next a).bind f
  | .claim cache folder next => .claim cache folder fun a => (next a).bind f
  | .list l next => .list l fun a => (next a).bind f
  | .write dest bytes next => .write dest bytes fun a => (next a).bind f
  | .flush dest next => .flush dest fun a => (next a).bind f
  | .copy copying next => .copy copying fun a => (next a).bind f
  | .collect room sofar next => .collect room sofar fun a => (next a).bind f
  | .saved which next => .saved which fun a => (next a).bind f
  | .release next => .release (next.bind f)
  | .hang => .hang

/-- Nothing after a piece of work leaves it as it is. -/
@[simp] theorem bind_done (s : Script α) : s.bind .done = s := by
  induction s with
  | done => rfl
  | hang => rfl
  | release next ih => simp only [bind, ih]
  | ask r next ih | claim cache folder next ih | list l next ih | write dest bytes next ih
  | flush dest next ih | copy copying next ih | collect room sofar next ih | saved which next ih =>
    simp only [bind, ih]

/-- Pieces of work one after the other may be grouped in any way. -/
theorem bind_assoc (s : Script α) (f : α → Script β) (g : β → Script γ) :
    (s.bind f).bind g = s.bind fun a => (f a).bind g := by
  induction s with
  | done => rfl
  | hang => rfl
  | release next ih => simp only [bind, ih]
  | ask r next ih | claim cache folder next ih | list l next ih | write dest bytes next ih
  | flush dest next ih | copy copying next ih | collect room sofar next ih | saved which next ih =>
    simp only [bind, ih]

instance : Monad Script where
  pure := .done
  bind := .bind

instance : LawfulMonad Script :=
  LawfulMonad.mk' Script bind_done (fun _ _ => rfl) bind_assoc

def request (r : Request) : Script r.Answer := .ask r .done

end Script

/-- A script that may fail before its end. -/
abbrev Task (α : Type) := ExceptT Failure Script α

namespace Task

def ask (r : Request) : Task r.Answer := ExceptT.lift (.request r)

/-- Goes on with the answer of a script unless it is a failure. -/
def ofScript (s : Script (Except Failure α)) : Task α := s

/-- Writes bytes; a stream that refuses them is a failure. -/
def write (dest : Output) (bytes : Bytes) : Task Unit :=
  Script.write dest bytes fun result => .done (result.mapError .stream)

def print (dest : Output) (text : String) : Task Unit := write dest (Text.Utf8.encode text)

/-- Copies the input to the output, up to the end. -/
def copy : Task Unit := Script.copy {} fun result => .done (result.mapError .stream)

/-- Reads the input to the end, or only so many bytes of it. -/
def collect (room : Option Nat) : Task Bytes :=
  Script.collect room {} fun bytes => .done (.ok bytes)

/-- How a script ends. -/
def toScript (t : Task α) : Script (Except Failure α) := t.run

/-- Goes on in either case, with the failure or the result. -/
def attempt (t : Task α) : Task (Except Failure α) := ExceptT.lift t.run

end Task

/-- A command: what it does with its arguments. -/
abbrev Command := List String → Task Unit

end StoreShell
