import StoreShell.Script

/-!
# A script that runs alone

What a script does when nothing else runs but the background. Its input is at hand as a whole and
its outputs take everything at once, so it waits for nothing but listings. `Script.run?` follows the
tree of the script; it has no result exactly if the script never ends.
-/

namespace StoreShell

/-- The surroundings of a script that runs alone. -/
structure Scene where
  world : World
  outlets : Outlets := .willing
  /-- What the script has not read of its input. -/
  input : Bytes := []
  sinks : PerOutput Sink := ⟨.discard, .discard⟩

namespace Scene

/-- Writes bytes to an output. Without bytes nothing is written. -/
def write (s : Scene) (dest : Output) (bytes : Bytes) : Except StreamError Unit × Scene :=
  if bytes.isEmpty then (.ok (), s)
  else
    let (result, outlets) := s.outlets.write (s.sinks.get dest) bytes
    (result, { s with outlets })

def flush (s : Scene) (dest : Output) : Except StreamError Unit :=
  s.outlets.flush (s.sinks.get dest)

/-- Copies what is held and what is left of the input to the output, and flushes it. -/
def copy (s : Scene) (copying : Copying) : Except StreamError Unit × Scene :=
  let (result, s) := { s with input := [] }.write .out (copying.held ++ s.input)
  (do result; s.flush .out, s)

/-- Takes bytes from the input as long as there is room. -/
def collect (s : Scene) (room : Option Nat) (sofar : Chunks) : Bytes × Scene :=
  match room with
  | none => ((sofar.push s.input).bytes, { s with input := [] })
  | some room =>
    ((sofar.push (s.input.take room)).bytes, { s with input := s.input.drop room })

/-- Nothing that is done to streams changes the world. -/
@[simp] theorem world_write (s : Scene) (dest : Output) (bytes : Bytes) :
    (s.write dest bytes).2.world = s.world := by
  rw [write]
  split <;> rfl

@[simp] theorem world_copy (s : Scene) (copying : Copying) :
    (s.copy copying).2.world = s.world := by
  rw [copy]
  exact world_write ..

@[simp] theorem world_collect (s : Scene) (room : Option Nat) (sofar : Chunks) :
    (s.collect room sofar).2.world = s.world := by
  cases room <;> rfl

end Scene

/-- Runs a script to its end. -/
def Script.run? : Script α → Scene → Option (α × Scene)
  | .done a, s => some (a, s)
  | .ask r next, s =>
    let (a, world) := s.world.answer r
    (next a).run? { s with world }
  | .claim cache folder next, s =>
    match s.world.awaitClaim cache folder with
    | none => none
    | some (a, world) => (next a).run? { s with world }
  | .list l next, s =>
    let (a, world) := s.world.awaitListing l
    (next a).run? { s with world }
  | .write dest bytes next, s =>
    let (a, s) := s.write dest bytes
    (next a).run? s
  | .flush dest next, s => (next (s.flush dest)).run? s
  | .copy copying next, s =>
    let (a, s) := s.copy copying
    (next a).run? s
  | .collect room sofar next, s =>
    let (a, s) := s.collect room sofar
    (next a).run? s
  | .saved which next, s => (next (s.outlets.saved.get which).bytes).run? s
  | .release next, s => next.run? s
  | .hang, _ => none

/-- A script that goes on with another one runs as the two do one after the other. -/
theorem Script.run?_bind (s : Script α) (f : α → Script β) (scene : Scene) :
    (s.bind f).run? scene = (s.run? scene).bind fun (a, scene) => (f a).run? scene := by
  induction s generalizing scene with
  | done => rfl
  | hang => rfl
  | release next ih => exact ih scene
  | claim cache folder next ih =>
    simp only [bind, run?]
    cases scene.world.awaitClaim cache folder with
    | none => rfl
    | some claimed => exact ih _ _
  | ask r next ih | list l next ih | write dest bytes next ih | flush dest next ih
  | copy copying next ih | collect room sofar next ih | saved which next ih =>
    exact ih _ _

/-- Runs a script that uses no streams. -/
def World.run? (w : World) (s : Script α) : Option (α × World) :=
  (s.run? { world := w }).map fun (a, scene) => (a, scene.world)

end StoreShell
