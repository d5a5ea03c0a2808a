import StoreShell.Script

/-!
# Scripts that run together

The commands of a pipeline run at the same time, each one's output being the next one's input. An
`Ensemble` holds them in their seats, with a pipe of limited capacity between neighbours. One step
of one seat is `Ensemble.step?`; it has no result when the seat has ended or has to wait.

Seats need not hold scripts. `Action` is what a running command does next, and an ensemble works for
any type of commands whose actions are known, so that what holds of pipelines holds for all of them.

`Ensemble.turn?` is the order of steps that the shell uses, and `Ensemble.drive?` follows it to the
end, having no result exactly if there is no end. Seats stand in a queue; the first one
steps until it has to wait or has ended, and a seat that can step again joins the end. Listings in
the background go on when all seats wait, and also when as many seats as are running have had their
turn since the last one ended. Time passes only when nothing else can.
-/

namespace StoreShell

/-- What a running command does next, `σ` being what it is afterwards. -/
inductive Action (σ : Type) where
  /-- It ends. -/
  | finish (verdict : Verdict)
  /-- It goes on. -/
  | pass (next : σ)
  /-- It reads at most so many bytes, none at the end of the input, and waits if there are none
  yet. -/
  | read (limit : Nat) (got : Bytes → σ)
  /-- It reads at most so many bytes and does something else if there are none yet. -/
  | tryRead (limit : Nat) (got : Bytes → σ) (dry : σ)
  /-- It writes as many of some bytes as there is room for, and waits if there is none. -/
  | write (dest : Output) (bytes : Bytes) (took : Except StreamError Nat → σ)
  /-- It writes as many of some bytes as there is room for and does something else if there is
  none. -/
  | tryWrite (dest : Output) (bytes : Bytes) (took : Except StreamError Nat → σ) (full : σ)
  /-- It waits for its input to have something or to end, or for its output to take something. -/
  | await (input output : Bool) (next : σ)
  /-- It flushes an output. -/
  | flush (dest : Output) (next : Except StreamError Unit → σ)
  /-- It looks at what was kept for a redirection. -/
  | saved (which : Output) (next : Bytes → σ)
  /-- It lets go of its streams. -/
  | release (next : σ)
  /-- It does something to the world, and waits if that is not possible yet. What it waits for comes
  at a time that is known, if one is. -/
  | effect (due : Option Nat) (run : World → Option (σ × World))

namespace Copying

def take (c : Copying) (bytes : Bytes) (phase : CopyPhase) : Copying :=
  if bytes.isEmpty then { c with ended := true, phase }
  else { c with held := c.held ++ bytes, room := c.room - bytes.length, phase }

/-- Whether there is more to read and room for it. -/
def canTake (c : Copying) : Bool := !c.ended && 0 < c.room

/-- What comes next when the input has nothing yet. -/
def whenDry (c : Copying) : CopyPhase :=
  if !c.held.isEmpty then .push else if c.unflushed then .idle else .wait true

end Copying

namespace Script

/-- What copying does next. -/
def copyAction (c : Copying) (next : Except StreamError Unit → Script α) : Action (Script α) :=
  match c.phase with
  | .fill =>
    if c.canTake then
      .tryRead c.room (fun bytes => .copy (c.take bytes .push) next) <|
        .copy { c with phase := c.whenDry } next
    else .pass (.copy { c with phase := .push } next)
  | .push =>
    if !c.held.isEmpty then
      .tryWrite .out c.held
        (fun
          | .error e => next (.error e)
          | .ok n => .copy { c with held := c.held.drop n, unflushed := true } next)
        (.copy { c with phase := if c.canTake then .topUp else .wait false } next)
    else .pass (.copy { c with room := 8192, phase := if c.ended then .finish else .fill } next)
  | .topUp =>
    .tryRead c.room (fun bytes => .copy (c.take bytes (.wait false)) next)
      (.copy { c with phase := .wait true } next)
  | .idle =>
    .flush .out fun
      | .error e => next (.error e)
      | .ok _ => .copy { c with unflushed := false, phase := .wait true } next
  | .finish => .flush .out next
  | .wait forInput => .await forInput (!c.held.isEmpty) (.copy { c with phase := .fill } next)

def act : Script Verdict → Action (Script Verdict)
  | .done verdict => .finish verdict
  | .ask r next => .effect none fun w =>
    let (a, w) := w.answer r
    some (next a, w)
  | .claim cache folder next => .effect none fun w =>
    (w.claim? cache folder).map fun (a, w) => (next a, w)
  | .list l next => .effect l.due? fun w =>
    if w.isWaiting l then none
    else match w.advance l with
      | (.inl l, w) => some (.list l next, w)
      | (.inr answer, w) => some (next answer, w)
  | .write dest bytes next =>
    if bytes.isEmpty then .pass (next (.ok ()))
    else .write dest bytes fun
      | .error e => next (.error e)
      | .ok n => .write dest (bytes.drop n) next
  | .flush dest next => .flush dest next
  | .copy c next => copyAction c next
  | .collect room sofar next =>
    if room = some 0 then .pass (next sofar.bytes)
    else .read (room.getD 65536) fun bytes =>
      if bytes.isEmpty then next sofar.bytes
      else .collect (room.map (· - bytes.length)) (sofar.push bytes) next
  | .saved which next => .saved which next
  | .release next => .release next
  | .hang => .effect none fun _ => none

end Script

/-- A pipe between two neighbours. -/
structure Pipe where
  held : Bytes := []
  writerGone : Bool := false
  readerGone : Bool := false
  deriving DecidableEq, Repr

namespace Pipe

/-- Takes at most so many bytes out, none if the pipe is at its end; no result if there are none
yet. -/
def read? (p : Pipe) (limit : Nat) : Option (Bytes × Pipe) :=
  if !p.held.isEmpty then some (p.held.take limit, { p with held := p.held.drop limit })
  else if p.writerGone then some ([], p)
  else none

/-- Puts as many bytes in as there is room for; no result if there is none. -/
def write? (p : Pipe) (capacity : Nat) (bytes : Bytes) : Option (Except StreamError Nat × Pipe) :=
  if p.readerGone then some (.error .brokenPipe, p)
  else
    let room := capacity - p.held.length
    if room = 0 then none
    else
      let taken := bytes.take room
      some (.ok taken.length, { p with held := p.held ++ taken })

/-- Reading takes bytes from the front and loses none. -/
theorem held_of_read? {p q : Pipe} {limit : Nat} {bytes : Bytes}
    (read : p.read? limit = some (bytes, q)) : p.held = bytes ++ q.held := by
  simp only [read?] at read
  split at read
  · cases read
    exact (List.take_append_drop limit p.held).symm
  · split at read
    · cases read
      rfl
    · cases read

/-- Writing adds at the end as many bytes as it reports. -/
theorem held_of_write? {p q : Pipe} {capacity n : Nat} {bytes : Bytes}
    (wrote : p.write? capacity bytes = some (.ok n, q)) : q.held = p.held ++ bytes.take n := by
  simp only [write?] at wrote
  split at wrote
  · cases wrote
  · split at wrote
    · cases wrote
    · cases wrote
      simp only [List.length_take, ← List.take_eq_take_min]

def isReadable (p : Pipe) : Bool := !p.held.isEmpty || p.writerGone

def isWritable (p : Pipe) (capacity : Nat) : Bool := p.readerGone || p.held.length < capacity

end Pipe

/-- How far a command in its seat has come. -/
inductive Phase (σ : Type) where
  /-- It runs. -/
  | command (s : σ)
  /-- It has ended, and its streams are closed. -/
  | closing (s : Script Verdict)
  | ended

/-- A command of a pipeline with what belongs to it. -/
structure Seat (σ : Type) where
  name : String
  phase : Phase σ
  sinks : PerOutput Sink
  /-- What is done once the command has ended. -/
  closing : Verdict → Script Verdict

def Seat.isEnded (s : Seat σ) : Bool :=
  match s.phase with
  | .ended => true
  | _ => false

/-- The commands of a pipeline while they run. The pipe behind a seat has its number. -/
structure Ensemble (σ : Type) where
  world : World
  outlets : Outlets
  /-- What the first command has not read of its input. -/
  input : Bytes
  capacity : Nat
  pipes : List Pipe
  seats : List (Seat σ)
  /-- The first failure that was met. -/
  failure : Option Failure := none

namespace Ensemble

def pipeAt (m : Ensemble σ) (i : Nat) : Pipe := m.pipes[i]?.getD {}

def setPipe (m : Ensemble σ) (i : Nat) (p : Pipe) : Ensemble σ :=
  { m with pipes := m.pipes.set i p }

def setPhase (m : Ensemble σ) (i : Nat) (phase : Phase σ) : Ensemble σ :=
  { m with seats := m.seats.modify i fun seat => { seat with phase } }

/-- Takes at most so many bytes from the input of a seat. -/
def read? (m : Ensemble σ) (i limit : Nat) : Option (Bytes × Ensemble σ) :=
  match i with
  | 0 => some (m.input.take limit, { m with input := m.input.drop limit })
  | before + 1 =>
    ((m.pipeAt before).read? limit).map fun (bytes, p) => (bytes, m.setPipe before p)

/-- Writes as many bytes as there is room for to a sink of a seat. -/
def write? (m : Ensemble σ) (i : Nat) (sink : Sink) (bytes : Bytes) :
    Option (Except StreamError Nat × Ensemble σ) :=
  match sink with
  | .pipe => ((m.pipeAt i).write? m.capacity bytes).map fun (result, p) => (result, m.setPipe i p)
  | sink =>
    let (result, outlets) := m.outlets.write sink bytes
    some (result.map fun _ => bytes.length, { m with outlets })

def isReadable (m : Ensemble σ) (i : Nat) : Bool :=
  match i with
  | 0 => true
  | before + 1 => (m.pipeAt before).isReadable

def isWritable (m : Ensemble σ) (i : Nat) (sink : Sink) : Bool :=
  match sink with
  | .pipe => (m.pipeAt i).isWritable m.capacity
  | _ => true

/-- A seat lets go of its streams: the pipe in front of it has no reader any more and, if it writes
to a pipe, that one has no writer. -/
def release (m : Ensemble σ) (i : Nat) (sinks : PerOutput Sink) : Ensemble σ :=
  let m := match i with
    | 0 => m
    | before + 1 => m.setPipe before { m.pipeAt before with readerGone := true }
  if sinks.out = .pipe then m.setPipe i { m.pipeAt i with writerGone := true } else m

/-- Does what a command in a seat does next; no result if it ends or has to wait. -/
def perform? (m : Ensemble σ) (i : Nat) (sinks : PerOutput Sink) :
    Action τ → Option (τ × Ensemble σ)
  | .finish _ => none
  | .pass next => some (next, m)
  | .read limit got => (m.read? i limit).map fun (bytes, m) => (got bytes, m)
  | .tryRead limit got dry =>
    match m.read? i limit with
    | some (bytes, m) => some (got bytes, m)
    | none => some (dry, m)
  | .write dest bytes took =>
    (m.write? i (sinks.get dest) bytes).map fun (result, m) => (took result, m)
  | .tryWrite dest bytes took full =>
    match m.write? i (sinks.get dest) bytes with
    | some (result, m) => some (took result, m)
    | none => some (full, m)
  | .await input output next =>
    if (input && m.isReadable i) || (output && m.isWritable i sinks.out) then some (next, m)
    else none
  | .flush dest next => some (next (m.outlets.flush (sinks.get dest)), m)
  | .saved which next => some (next (m.outlets.saved.get which).bytes, m)
  | .release next => some (next, m.release i sinks)
  | .effect _ run => (run m.world).map fun (next, world) => (next, { m with world })

/-- The first failure counts, under the name of its command. -/
def recordVerdict (m : Ensemble σ) (name : String) (verdict : Verdict) : Ensemble σ :=
  match m.failure, verdict with
  | none, .error failure => { m with failure := some (.inSegment name failure) }
  | _, _ => m

/-- The command in a seat is cut off: it is dropped where it stands, and what is done once it has
ended is begun. -/
def cutOff (m : Ensemble σ) (i : Nat) (seat : Seat σ) : Ensemble σ :=
  m.setPhase i (.closing (seat.closing (.error .cancelled)))

/-- One step of the command in a seat; no result if it has ended or has to wait. A command that has
to wait when the line is cancelled is cut off. -/
def step? (act : σ → Action σ) (m : Ensemble σ) (i : Nat) : Option (Ensemble σ) := do
  let seat ← m.seats[i]?
  match seat.phase with
  | .ended => none
  | .command s =>
    match act s with
    | .finish verdict => some (m.setPhase i (.closing (seat.closing verdict)))
    | action =>
      match m.perform? i seat.sinks action with
      | some (s, m) => some (m.setPhase i (.command s))
      | none => if m.world.cancelled then some (m.cutOff i seat) else none
  | .closing s =>
    match s.act with
    | .finish verdict => some ((m.setPhase i .ended).recordVerdict seat.name verdict)
    | action => (m.perform? i seat.sinks action).map fun (s, m) => m.setPhase i (.closing s)

def running (m : Ensemble σ) : List Nat :=
  (List.range m.seats.length).filter fun i => !(m.seats[i]?.any Seat.isEnded)

/-- The seats, but those of a list, that can step. -/
def awake (act : σ → Action σ) (m : Ensemble σ) (besides : List Nat) : List Nat :=
  m.running.filter fun i => !besides.contains i && (m.step? act i).isSome

def dueOf? (act : σ → Action σ) (seat : Seat σ) : Option Nat :=
  match seat.phase with
  | .command s =>
    match act s with
    | .effect due _ => due
    | _ => none
  | _ => none

/-- The earliest time that anything waits for. -/
def nextDue? (act : σ → Action σ) (m : Ensemble σ) : Option Nat :=
  (m.world.nextDue?.toList ++ m.seats.filterMap (dueOf? act)).min?

def runBackground (m : Ensemble σ) : Ensemble σ := { m with world := m.world.runBackground }

def passTime (m : Ensemble σ) (due : Nat) : Ensemble σ :=
  { m with world := { m.world with clock := max m.world.clock due } }

/-- Whose turn it is, and how many turns there have been since the last command ended, of how many
that were running then. -/
structure Turns where
  queue : List Nat
  taken : Nat := 0
  among : Nat

/-- All that are running have their turns. -/
def startTurns (m : Ensemble σ) (queue : List Nat) : Turns :=
  { queue, among := m.running.length }

/-- The next turn: whose turns come then, and how the commands stand; no result if all of them wait
for something that never happens. -/
def turn? (act : σ → Action σ) (turns : Turns) (m : Ensemble σ) : Option (Turns × Ensemble σ) :=
  match turns.queue with
  | [] =>
    let m := m.runBackground
    match m.awake act [] with
    | i :: rest => some (m.startTurns (i :: rest), m)
    | [] =>
      (m.nextDue? act).map fun due =>
        let m := m.passTime due
        (m.startTurns (m.awake act []), m)
  | i :: waiting =>
    match m.step? act i with
    | some m =>
      let queue := waiting ++ m.awake act (i :: waiting)
      if m.running.contains i then some ({ turns with queue := i :: queue }, m)
      else some (m.startTurns queue, m)
    | none =>
      let taken := turns.taken + 1
      if taken = turns.among then
        let m := m.runBackground
        some (m.startTurns (waiting ++ m.awake act waiting), m)
      else some ({ turns with queue := waiting, taken }, m)

/-- Runs all commands to their ends; no result if that never happens. -/
def drive? (act : σ → Action σ) (turns : Turns) (m : Ensemble σ) : Option (Ensemble σ) :=
  if turns.queue.isEmpty && m.running.isEmpty then some m
  else
    match m.turn? act turns with
    | none => none
    | some (turns, m) => m |>.drive? act turns
partial_fixpoint

/-- Runs all commands to their ends, from left to right at first. -/
def run? (act : σ → Action σ) (m : Ensemble σ) : Option (Ensemble σ) :=
  m.drive? act (m.startTurns (List.range m.seats.length))

end Ensemble

end StoreShell
