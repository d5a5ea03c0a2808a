import StoreShell.Failure
import StoreShell.Text.Bytes

/-!
# Streams

Where the output of commands goes. A sink is the far end of one output stream of one command: the
pipe to the next command, the bytes kept for a redirection, nowhere, or a stream of the caller.
Streams of the caller may refuse to be written or flushed; all other sinks but pipes take every
byte. Pipes can be full, so they belong to the execution of a whole pipeline and not to this module.
-/

namespace StoreShell

/-- The two output streams of a command. -/
inductive Output where
  | out
  | err
  deriving DecidableEq, Repr

/-- Something for each of the two output streams. -/
structure PerOutput (α : Type) where
  out : α
  err : α
  deriving DecidableEq, Repr

namespace PerOutput

def get (p : PerOutput α) : Output → α
  | .out => p.out
  | .err => p.err

def set (p : PerOutput α) (a : α) : Output → PerOutput α
  | .out => { p with out := a }
  | .err => { p with err := a }

@[simp] theorem get_set_self (p : PerOutput α) (a : α) (which : Output) :
    (p.set a which).get which = a := by
  cases which <;> rfl

/-- The two streams are independent of each other. -/
theorem get_set_of_ne (p : PerOutput α) (a : α) {which other : Output} (differ : other ≠ which) :
    (p.set a which).get other = p.get other := by
  cases which with
  | out =>
    cases other with
    | out => exact absurd rfl differ
    | err => rfl
  | err =>
    cases other with
    | out => rfl
    | err => exact absurd rfl differ

end PerOutput

/-- Where an output stream of a command leads. -/
inductive Sink where
  /-- Bytes are dropped. -/
  | discard
  /-- Bytes are kept for the redirection of the output or of the error output. -/
  | saved (which : Output)
  /-- Bytes go to a stream of the caller. -/
  | caller (which : Output)
  /-- Bytes go to the next command of the pipeline. -/
  | pipe
  deriving DecidableEq, Repr

/-- What a stream of the caller refuses, if anything. -/
inductive Refusal where
  | nothing
  | writes (trouble : StreamTrouble)
  | flushes (trouble : StreamTrouble)
  deriving DecidableEq, Repr

/-- A stream of the caller. -/
structure CallerStream where
  /-- The name under which it reports its failures. -/
  name : String
  refuses : Refusal := .nothing
  received : Chunks := {}

namespace CallerStream

/-- Writes bytes, all or none. -/
def write (s : CallerStream) (bytes : Bytes) : Except StreamError Unit × CallerStream :=
  match s.refuses with
  | .writes trouble => (.error ⟨trouble, s!"{s.name} write failed"⟩, s)
  | _ => (.ok (), { s with received := s.received.push bytes })

def flush (s : CallerStream) : Except StreamError Unit :=
  match s.refuses with
  | .flushes trouble => .error ⟨trouble, s!"{s.name} flush failed"⟩
  | _ => .ok ()

end CallerStream

/-- Everything outside of pipes that output can go to. -/
structure Outlets where
  callers : PerOutput CallerStream
  saved : PerOutput Chunks := ⟨{}, {}⟩

namespace Outlets

/-- Streams of the caller that refuse what is told. -/
def withRefusals (out err : Refusal) : Outlets where
  callers := ⟨{ name := "stdout", refuses := out }, { name := "stderr", refuses := err }⟩

def willing : Outlets := withRefusals .nothing .nothing

/-- Writes bytes to a sink that is no pipe. -/
def write (o : Outlets) (sink : Sink) (bytes : Bytes) : Except StreamError Unit × Outlets :=
  match sink with
  | .discard | .pipe => (.ok (), o)
  | .saved which => (.ok (), { o with saved := o.saved.set ((o.saved.get which).push bytes) which })
  | .caller which =>
    let (result, stream) := (o.callers.get which).write bytes
    (result, { o with callers := o.callers.set stream which })

def flush (o : Outlets) : Sink → Except StreamError Unit
  | .caller which => (o.callers.get which).flush
  | _ => .ok ()

end Outlets

end StoreShell
