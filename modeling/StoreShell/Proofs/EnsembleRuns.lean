import StoreShell.Script.Together

/-! # Runs of ensembles

`Ensemble.drive?` follows the turns of an ensemble to the end. `Drives` is the same as a relation,
with one constructor for the end and one for a turn, so that what holds of whole runs is proved by
induction on them.
-/

namespace StoreShell.Ensemble

variable {σ : Type} {act : σ → Action σ}

/-- How an ensemble ends that has its turns. -/
inductive Drives (act : σ → Action σ) : Turns → Ensemble σ → Ensemble σ → Prop where
  | stop {turns m} : turns.queue = [] → m.running = [] → Drives act turns m m
  | turn {turns turns' m m' final} : ¬ (turns.queue = [] ∧ m.running = []) →
      m.turn? act turns = some (turns', m') → Drives act turns' m' final →
      Drives act turns m final

/-- The relation and the function agree. -/
theorem drive?_eq_some_iff {turns : Turns} {m final : Ensemble σ} :
    m.drive? act turns = some final ↔ Drives act turns m final := by
  constructor
  · intro drives
    refine drive?.partial_correctness act (fun turns m final => Drives act turns m final) ?_ turns m
      final drives
    intro drive ih turns m final body
    split at body
    · next finished =>
      cases body
      simp only [Bool.and_eq_true, List.isEmpty_iff] at finished
      exact .stop finished.1 finished.2
    · next more =>
      simp only [Bool.and_eq_true, List.isEmpty_iff] at more
      split at body
      · cases body
      · next next => exact .turn more next (ih _ _ _ body)
  · intro drives
    induction drives with
    | stop empty still =>
      rw [drive?.eq_1, if_pos (by simp [empty, still])]
    | turn more next _ ih =>
      rw [drive?.eq_1, if_neg (by simpa using more), next]
      exact ih

/-- How an ensemble ends that has its turns, if so many are enough. -/
def driveIn? (act : σ → Action σ) : Nat → Turns → Ensemble σ → Option (Ensemble σ)
  | 0, _, _ => none
  | more + 1, turns, m =>
    if turns.queue.isEmpty && m.running.isEmpty then some m
    else (m.turn? act turns).bind fun (turns, m) => driveIn? act more turns m

/-- An ensemble that ends within a number of turns is driven to its end. -/
theorem drives_of_driveIn? {more : Nat} {turns : Turns} {m final : Ensemble σ}
    (drives : driveIn? act more turns m = some final) : Drives act turns m final := by
  induction more generalizing turns m with
  | zero => cases drives
  | succ more ih =>
    rw [driveIn?] at drives
    split at drives
    · next finished =>
      cases drives
      simp only [Bool.and_eq_true, List.isEmpty_iff] at finished
      exact .stop finished.1 finished.2
    · next unfinished =>
      obtain ⟨⟨turns', m'⟩, turn, rest⟩ := Option.bind_eq_some_iff.mp drives
      simp only [Bool.and_eq_true, List.isEmpty_iff] at unfinished
      exact .turn unfinished turn (ih rest)

/-- What goes to no pipe is written at once, all of it or nothing. -/
theorem write?_of_ne_pipe (m : Ensemble σ) (i : Nat) {sink : Sink} (elsewhere : sink ≠ .pipe)
    (bytes : Bytes) : m.write? i sink bytes =
      some ((m.outlets.write sink bytes).1.map fun _ => bytes.length,
        { m with outlets := (m.outlets.write sink bytes).2 }) := by
  cases sink with
  | pipe => exact absurd rfl elsewhere
  | discard | saved _ | caller _ => rfl

/-- What is done to streams concerns neither the world nor the seats. -/
structure SameSeats (m m' : Ensemble σ) : Prop where
  world : m'.world = m.world
  seats : m'.seats = m.seats

/-- Reading leaves the seats as they are. -/
theorem sameSeats_read? {m m' : Ensemble σ} {i limit : Nat} {bytes : Bytes}
    (read : m.read? i limit = some (bytes, m')) : m.SameSeats m' := by
  cases i with
  | zero =>
    cases read
    exact ⟨rfl, rfl⟩
  | succ before =>
    obtain ⟨_, _, same⟩ := Option.map_eq_some_iff.mp read
    cases same
    exact ⟨rfl, rfl⟩

theorem sameSeats_write? {m m' : Ensemble σ} {i : Nat} {sink : Sink} {bytes : Bytes}
    {result : Except StreamError Nat} (wrote : m.write? i sink bytes = some (result, m')) :
    m.SameSeats m' := by
  cases sink with
  | pipe =>
    obtain ⟨_, _, same⟩ := Option.map_eq_some_iff.mp wrote
    cases same
    exact ⟨rfl, rfl⟩
  | discard | saved _ | caller _ =>
    cases wrote
    exact ⟨rfl, rfl⟩

theorem sameSeats_release (m : Ensemble σ) (i : Nat) (sinks : PerOutput Sink) :
    m.SameSeats (m.release i sinks) := by
  cases i <;> simp only [release] <;> split <;> exact ⟨rfl, rfl⟩

/-- What an action on streams may go on with. -/
inductive Gives {τ : Type} : Action τ → τ → Prop where
  | pass {next} : Gives (.pass next) next
  | read {limit got} (bytes) : Gives (.read limit got) (got bytes)
  | tryRead {limit got dry} (bytes) : Gives (.tryRead limit got dry) (got bytes)
  | dry {limit got dry} : Gives (.tryRead limit got dry) dry
  | write {dest bytes took} (result) : Gives (.write dest bytes took) (took result)
  | tryWrite {dest bytes took full} (result) :
      Gives (.tryWrite dest bytes took full) (took result)
  | full {dest bytes took full} : Gives (.tryWrite dest bytes took full) full
  | await {input output next} : Gives (.await input output next) next
  | flush {dest next} (result) : Gives (.flush dest next) (next result)
  | saved {which next} (bytes) : Gives (.saved which next) (next bytes)
  | release {next} : Gives (.release next) next

/-- An action is one on streams, or does something to the world and to nothing else. -/
theorem of_perform? {τ : Type} {m m' : Ensemble σ} {i : Nat} {sinks : PerOutput Sink}
    {action : Action τ} {next : τ} (performed : m.perform? i sinks action = some (next, m')) :
    Gives action next ∧ m.SameSeats m' ∨ ∃ due run world,
      action = .effect due run ∧ run m.world = some (next, world) ∧ m' = { m with world } := by
  cases action with
  | finish verdict => cases performed
  | pass t =>
    cases performed
    exact Or.inl ⟨.pass, rfl, rfl⟩
  | read limit got =>
    obtain ⟨_, read, same⟩ := Option.map_eq_some_iff.mp performed
    cases same
    exact Or.inl ⟨.read _, sameSeats_read? read⟩
  | tryRead limit got dry =>
    simp only [perform?] at performed
    split at performed
    · next read =>
      cases performed
      exact Or.inl ⟨.tryRead _, sameSeats_read? read⟩
    · cases performed
      exact Or.inl ⟨.dry, rfl, rfl⟩
  | write dest bytes took =>
    obtain ⟨_, wrote, same⟩ := Option.map_eq_some_iff.mp performed
    cases same
    exact Or.inl ⟨.write _, sameSeats_write? wrote⟩
  | tryWrite dest bytes took full =>
    simp only [perform?] at performed
    split at performed
    · next wrote =>
      cases performed
      exact Or.inl ⟨.tryWrite _, sameSeats_write? wrote⟩
    · cases performed
      exact Or.inl ⟨.full, rfl, rfl⟩
  | await input output t =>
    simp only [perform?] at performed
    split at performed
    · cases performed
      exact Or.inl ⟨.await, rfl, rfl⟩
    · cases performed
  | flush dest t =>
    cases performed
    exact Or.inl ⟨.flush _, rfl, rfl⟩
  | saved which t =>
    cases performed
    exact Or.inl ⟨.saved _, rfl, rfl⟩
  | release t =>
    cases performed
    exact Or.inl ⟨.release, sameSeats_release m i sinks⟩
  | effect due run =>
    obtain ⟨⟨t, world⟩, ran, same⟩ := Option.map_eq_some_iff.mp performed
    cases same
    exact Or.inr ⟨due, run, world, rfl, ran, rfl⟩

/-- An action that is no effect leaves the world as it is. -/
theorem world_of_perform? {τ : Type} {m m' : Ensemble σ} {i : Nat} {sinks : PerOutput Sink}
    {action : Action τ} {next : τ} (quiet : ∀ due run, action ≠ .effect due run)
    (performed : m.perform? i sinks action = some (next, m')) : m'.world = m.world := by
  rcases of_perform? performed with ⟨-, same⟩ | ⟨due, run, -, action, -⟩
  · exact same.world
  · exact absurd action (quiet due run)

/-- An action changes pipes and the world, but no seat. -/
theorem seats_of_perform? {τ : Type} {m m' : Ensemble σ} {i : Nat} {sinks : PerOutput Sink}
    {action : Action τ} {next : τ} (performed : m.perform? i sinks action = some (next, m')) :
    m'.seats = m.seats := by
  rcases of_perform? performed with ⟨-, same⟩ | ⟨_, _, _, -, -, rfl⟩
  · exact same.seats
  · rfl

theorem world_recordVerdict (m : Ensemble σ) (name : String) (verdict : Verdict) :
    (m.recordVerdict name verdict).world = m.world := by
  unfold recordVerdict
  split <;> rfl

theorem seats_recordVerdict (m : Ensemble σ) (name : String) (verdict : Verdict) :
    (m.recordVerdict name verdict).seats = m.seats := by
  unfold recordVerdict
  split <;> rfl

/-- Without listings in the background nothing happens there. -/
theorem runBackground_eq {m : Ensemble σ} (background : m.world.background = []) :
    m.runBackground = m := by
  obtain ⟨world, outlets, input, capacity, pipes, seats, failure⟩ := m
  obtain ⟨cwd, area, settings, caches, remotes, cache, remote, _, clock, cancelled⟩ := world
  cases background
  rfl

/-! ### One step -/

section Steps

variable {m : Ensemble σ} {i : Nat} {seat : Seat σ}

theorem step?_of_ended (here : m.seats[i]? = some seat) (ended : seat.phase = .ended) :
    m.step? act i = none := by
  rw [step?, here, Option.bind_eq_bind, Option.bind_some, ended]

/-- A command that ends by itself goes on to what is done then. -/
theorem step?_of_finish {s : σ} {verdict : Verdict} (here : m.seats[i]? = some seat)
    (phase : seat.phase = .command s) (ends : act s = .finish verdict) :
    m.step? act i = some (m.setPhase i (.closing (seat.closing verdict))) := by
  rw [step?, here, Option.bind_eq_bind, Option.bind_some, phase]
  simp only [ends]

/-- A command that goes on does what its script says. One that has to wait is cut off if the line is
cancelled. -/
theorem step?_of_command {s : σ} (here : m.seats[i]? = some seat) (phase : seat.phase = .command s)
    (going : ∀ verdict, act s ≠ .finish verdict) :
    m.step? act i =
      match m.perform? i seat.sinks (act s) with
      | some (s, m) => some (m.setPhase i (.command s))
      | none => if m.world.cancelled then some (m.cutOff i seat) else none := by
  rw [step?, here, Option.bind_eq_bind, Option.bind_some, phase]
  dsimp only
  split
  · next verdict ends => exact absurd ends (going verdict)
  · rfl

/-- When everything about a command has ended its verdict is recorded. -/
theorem step?_of_finish_closing {s : Script Verdict} {verdict : Verdict}
    (here : m.seats[i]? = some seat) (phase : seat.phase = .closing s)
    (ends : s.act = .finish verdict) :
    m.step? act i = some ((m.setPhase i .ended).recordVerdict seat.name verdict) := by
  rw [step?, here, Option.bind_eq_bind, Option.bind_some, phase]
  simp only [ends]

/-- What is done after the end of a command goes on in the same seat. -/
theorem step?_of_closing {s : Script Verdict} (here : m.seats[i]? = some seat)
    (phase : seat.phase = .closing s) (going : ∀ verdict, s.act ≠ .finish verdict) :
    m.step? act i =
      (m.perform? i seat.sinks s.act).map fun (s, m) => m.setPhase i (.closing s) := by
  rw [step?, here, Option.bind_eq_bind, Option.bind_some, phase]
  dsimp only
  split
  · next verdict ends => exact absurd ends (going verdict)
  · rfl

end Steps

/-! ### Who runs and who can step -/

theorem mem_running {m : Ensemble σ} {i : Nat} :
    i ∈ m.running ↔ ∃ seat, m.seats[i]? = some seat ∧ ¬ seat.isEnded := by
  simp only [running, List.mem_filter, List.mem_range]
  constructor
  · rintro ⟨inside, going⟩
    rw [List.getElem?_eq_getElem inside] at going ⊢
    exact ⟨_, rfl, by simpa using going⟩
  · rintro ⟨seat, here, going⟩
    rw [here]
    exact ⟨(List.getElem?_eq_some_iff.mp here).1, by simpa using going⟩

/-- A seat whose command has ended takes no step. -/
theorem step?_of_notMem_running {m : Ensemble σ} {i : Nat} (still : i ∉ m.running) :
    m.step? act i = none := by
  rw [mem_running] at still
  cases here : m.seats[i]? with
  | none =>
    rw [step?, here]
    rfl
  | some seat =>
    have ended : seat.isEnded := Decidable.byContradiction fun going => still ⟨seat, here, going⟩
    cases phase : seat.phase with
    | command s | closing s =>
      rw [Seat.isEnded, phase] at ended
      cases ended
    | ended => exact step?_of_ended here phase

theorem mem_awake {m : Ensemble σ} {besides : List Nat} {i : Nat} :
    i ∈ m.awake act besides ↔ i ∉ besides ∧ (m.step? act i).isSome := by
  rw [awake, List.mem_filter]
  constructor
  · rintro ⟨-, found⟩
    simpa using found
  · rintro ⟨out, steps⟩
    refine ⟨?_, by simpa using ⟨out, steps⟩⟩
    refine Decidable.byContradiction fun still => ?_
    rw [step?_of_notMem_running still] at steps
    cases steps

/-- Nobody else can step if all others are asleep. -/
theorem awake_eq_nil {m : Ensemble σ} {besides : List Nat}
    (asleep : ∀ i, i ∉ besides → m.step? act i = none) : m.awake act besides = [] := by
  rw [List.eq_nil_iff_forall_not_mem]
  intro i member
  obtain ⟨out, steps⟩ := mem_awake.mp member
  rw [asleep i out] at steps
  cases steps

section SetPhase

variable {m : Ensemble σ} {i j : Nat} {phase : Phase σ}

theorem getElem?_setPhase_self :
    (m.setPhase i phase).seats[i]? = m.seats[i]?.map fun seat => { seat with phase } := by
  simp [setPhase]

theorem getElem?_setPhase_of_ne (other : j ≠ i) :
    (m.setPhase i phase).seats[j]? = m.seats[j]? := by
  simp [setPhase, Ne.symm other]

end SetPhase

/-! ### Turns -/

section Turns

variable {m m' : Ensemble σ} {turns : Turns} {i : Nat} {waiting : List Nat}

/-- The head of the queue takes a step, and keeps its turn as long as its command has not ended. -/
theorem turn?_of_step (queue : turns.queue = i :: waiting) (step : m.step? act i = some m')
    (more : i ∈ m'.running) :
    m.turn? act turns =
      some ({ turns with queue := i :: (waiting ++ m'.awake act (i :: waiting)) }, m') := by
  simp only [turn?, queue, step]
  rw [if_pos (by simpa using more)]

/-- After the last step of a command those that have their turns are found anew. -/
theorem turn?_of_last_step (queue : turns.queue = i :: waiting) (step : m.step? act i = some m')
    (finished : i ∉ m'.running) :
    m.turn? act turns =
      some (m'.startTurns (waiting ++ m'.awake act (i :: waiting)), m') := by
  simp only [turn?, queue, step]
  rw [if_neg (by simpa using finished)]

/-- A seat that cannot step gives its place to the next one, and when all have been asked, the
background goes on. -/
theorem turn?_of_asleep (queue : turns.queue = i :: waiting) (asleep : m.step? act i = none) :
    m.turn? act turns =
      if turns.taken + 1 = turns.among then
        some (m.runBackground.startTurns (waiting ++ m.runBackground.awake act waiting),
          m.runBackground)
      else some ({ turns with queue := waiting, taken := turns.taken + 1 }, m) := by
  simp only [turn?, queue, asleep]

/-- Nothing happens any more if nobody can step and nothing is waited for. -/
theorem turn?_of_dead (queue : turns.queue = []) (background : m.world.background = [])
    (asleep : ∀ i, m.step? act i = none) (undue : ∀ seat ∈ m.seats, dueOf? act seat = none) :
    m.turn? act turns = none := by
  have nobody : m.awake act [] = [] := awake_eq_nil fun i _ => asleep i
  have never : m.nextDue? act = none := by
    rw [nextDue?, World.nextDue?, background, List.filterMap_eq_nil_iff.mpr undue]
    rfl
  simp only [turn?, queue, runBackground_eq background, nobody, never, Option.map_none]

end Turns

end StoreShell.Ensemble
