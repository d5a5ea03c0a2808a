import StoreShell.Execution
import StoreShell.Proofs.EnsembleRuns

/-! # Schedules

A schedule lets the commands of a pipeline step in any order, while anything may happen to the world
in between. It keeps a log of what the commands write, of how they end and of the verdicts on them.
The order of turns that the shell uses is one of these schedules, so that what holds of all of them
holds of every pipeline that it runs.

`Lineup` is a pipeline before it runs. Its commands can be of any type, as those of ensembles, but
their wiring is the one that the shell gives to commands in their places.
-/

namespace StoreShell

/-- What belongs to a seat for good. -/
def Seat.fixture (seat : Seat σ) : String × PerOutput Sink × (Verdict → Script Verdict) :=
  (seat.name, seat.sinks, seat.closing)

/-- What is worth telling of a step of a command. -/
inductive Deed where
  /-- It wrote bytes. -/
  | wrote (dest : Output) (bytes : Bytes)
  /-- It ended by itself. -/
  | ended (verdict : Verdict)
  /-- It was cut off. -/
  | cutOff
  /-- All that is done after its end is done, and this is the verdict on it. -/
  | concluded (verdict : Verdict)

/-- What is worth telling of writing, by how much was taken. -/
def Deed.ofWrite? (dest : Output) (bytes : Bytes) : Except StreamError Nat → Option Deed
  | .ok n => some (.wrote dest (bytes.take n))
  | .error _ => none

namespace Ensemble

variable {σ : Type} {act : σ → Action σ} {m m' m'' : Ensemble σ} {i j k : Nat}

/-- What is worth telling of an action: the bytes that a stream took. -/
def wrote? (m : Ensemble σ) (i : Nat) (sinks : PerOutput Sink) {τ : Type} : Action τ → Option Deed
  | .write dest bytes _ | .tryWrite dest bytes _ _ =>
    (m.write? i (sinks.get dest) bytes).bind fun (result, _) => Deed.ofWrite? dest bytes result
  | _ => none

/-- What is worth telling of the next step of a seat. -/
def deed? (act : σ → Action σ) (m : Ensemble σ) (i : Nat) : Option Deed := do
  let seat ← m.seats[i]?
  match seat.phase with
  | .ended => none
  | .command s =>
    match act s with
    | .finish verdict => some (.ended verdict)
    | action =>
      if (m.perform? i seat.sinks action).isSome then m.wrote? i seat.sinks action else some .cutOff
  | .closing s =>
    match s.act with
    | .finish verdict => some (.concluded verdict)
    | action => m.wrote? i seat.sinks action

/-- What one step of a seat does. -/
inductive Move (act : σ → Action σ) (m : Ensemble σ) (i : Nat) : Option Deed → Ensemble σ → Prop where
  | finish {seat s verdict} : m.seats[i]? = some seat → seat.phase = .command s →
      act s = .finish verdict →
      Move act m i (some (.ended verdict)) (m.setPhase i (.closing (seat.closing verdict)))
  | go {seat s s' m'} : m.seats[i]? = some seat → seat.phase = .command s →
      m.perform? i seat.sinks (act s) = some (s', m') →
      Move act m i (m.wrote? i seat.sinks (act s)) (m'.setPhase i (.command s'))
  | cutOff {seat s} : m.seats[i]? = some seat → seat.phase = .command s →
      m.perform? i seat.sinks (act s) = none → m.world.cancelled →
      Move act m i (some .cutOff) (m.cutOff i seat)
  | close {seat s s' m'} : m.seats[i]? = some seat → seat.phase = .closing s →
      m.perform? i seat.sinks s.act = some (s', m') →
      Move act m i (m.wrote? i seat.sinks s.act) (m'.setPhase i (.closing s'))
  | conclude {seat s verdict} : m.seats[i]? = some seat → seat.phase = .closing s →
      s.act = .finish verdict →
      Move act m i (some (.concluded verdict))
        ((m.setPhase i .ended).recordVerdict seat.name verdict)

/-- Every step is one of these moves. -/
theorem move_of_step? (step : m.step? act i = some m') : Move act m i (m.deed? act i) m' := by
  cases here : m.seats[i]? with
  | none =>
    rw [step?, here] at step
    cases step
  | some seat =>
    rw [deed?, here, Option.bind_eq_bind, Option.bind_some]
    cases phase : seat.phase with
    | ended =>
      rw [step?_of_ended here phase] at step
      cases step
    | command s =>
      by_cases ends : ∃ verdict, act s = .finish verdict
      · obtain ⟨verdict, ends⟩ := ends
        rw [step?_of_finish here phase ends] at step
        cases step
        simp only [ends]
        exact .finish here phase ends
      · rw [not_exists] at ends
        rw [step?_of_command here phase ends] at step
        dsimp only
        split
        · next verdict finishes => exact absurd finishes (ends verdict)
        · split at step
          · next performed =>
            cases step
            rw [performed, Option.isSome_some, if_pos rfl]
            exact .go here phase performed
          · next waits =>
            split at step
            · next cancelled =>
              cases step
              rw [waits, Option.isSome_none, if_neg Bool.false_ne_true]
              exact .cutOff here phase waits cancelled
            · cases step
    | closing s =>
      by_cases ends : ∃ verdict, s.act = .finish verdict
      · obtain ⟨verdict, ends⟩ := ends
        rw [step?_of_finish_closing here phase ends] at step
        cases step
        simp only [ends]
        exact .conclude here phase ends
      · rw [not_exists] at ends
        rw [step?_of_closing here phase ends] at step
        obtain ⟨⟨s', m'⟩, performed, same⟩ := Option.map_eq_some_iff.mp step
        cases same
        dsimp only
        split
        · next verdict finishes => exact absurd finishes (ends verdict)
        · exact .close here phase performed

/-! ### Any order -/

/-- Whatever commands that start in one way may come to, with the log of what they did. The world
changes by itself too: listings in the background go on, time passes, a line is cancelled. -/
inductive Schedule (act : σ → Action σ) (m : Ensemble σ) : List (Nat × Deed) → Ensemble σ → Prop where
  | start : Schedule act m [] m
  | step {log m' i m''} : Schedule act m log m' → m'.step? act i = some m'' →
      Schedule act m (log ++ (m'.deed? act i).toList.map (i, ·)) m''
  | elsewhere {log m'} (world : World) : Schedule act m log m' →
      Schedule act m log { m' with world }

/-- What the commands come to when they step in a given order, if they can. -/
def inOrder? (act : σ → Action σ) (log : List (Nat × Deed)) (m : Ensemble σ) :
    List Nat → Option (List (Nat × Deed) × Ensemble σ)
  | [] => some (log, m)
  | i :: order =>
    match m.step? act i with
    | none => none
    | some m' => inOrder? act (log ++ (m.deed? act i).toList.map (i, ·)) m' order

/-- Any order is a schedule. -/
theorem Schedule.inOrder? {start : Ensemble σ} {log log' : List (Nat × Deed)} {order : List Nat}
    (schedule : Schedule act start log m) (steps : m.inOrder? act log order = some (log', m')) :
    Schedule act start log' m' := by
  induction order generalizing log m with
  | nil =>
    cases steps
    exact schedule
  | cons i order ih =>
    rw [Ensemble.inOrder?] at steps
    split at steps
    · cases steps
    · next step => exact ih (schedule.step step) steps

/-- In a turn a seat steps, or nothing happens but that the background goes on and time passes. -/
theorem cases_of_turn? {turns turns' : Turns} (turn : m.turn? act turns = some (turns', m')) :
    (∃ i, m.step? act i = some m') ∨ m' = m ∨ m' = m.runBackground ∨
      ∃ due, m' = m.runBackground.passTime due := by
  rw [turn?] at turn
  split at turn
  · dsimp only at turn
    split at turn
    · cases turn
      exact Or.inr (Or.inr (Or.inl rfl))
    · obtain ⟨due, -, same⟩ := Option.map_eq_some_iff.mp turn
      cases same
      exact Or.inr (Or.inr (Or.inr ⟨due, rfl⟩))
  · split at turn
    · next step =>
      dsimp only at turn
      split at turn <;> cases turn <;> exact Or.inl ⟨_, step⟩
    · dsimp only at turn
      split at turn <;> cases turn
      · exact Or.inr (Or.inr (Or.inl rfl))
      · exact Or.inr (Or.inl rfl)

/-- The turns of the shell are a schedule, and when they stop all commands have ended. -/
theorem Drives.schedule {turns : Turns} {final : Ensemble σ} (drives : Drives act turns m final) :
    (∃ log, Schedule act m log final) ∧ final.running = [] := by
  suffices further : ∀ {start : Ensemble σ} {log : List (Nat × Deed)}, Schedule act start log m →
      (∃ log, Schedule act start log final) ∧ final.running = [] from further .start
  induction drives with
  | stop _ still => exact fun schedule => ⟨⟨_, schedule⟩, still⟩
  | turn _ next _ ih =>
    intro start log schedule
    rcases cases_of_turn? next with ⟨i, step⟩ | rfl | rfl | ⟨due, rfl⟩
    · exact ih (schedule.step step)
    · exact ih schedule
    · exact ih (.elsewhere _ schedule)
    · have background : Schedule act start log (runBackground _) := .elsewhere _ schedule
      exact ih (.elsewhere _ background)

/-- Everything about a command has ended when nothing runs any more. -/
theorem phase_of_still (still : m.running = []) {seat : Seat σ} (here : m.seats[i]? = some seat) :
    seat.phase = .ended := by
  cases phase : seat.phase with
  | ended => rfl
  | command | closing =>
    have runs : i ∈ m.running := mem_running.mpr ⟨seat, here, by simp [Seat.isEnded, phase]⟩
    rw [still] at runs
    cases runs

/-- The verdict on a command concerns nothing but the failure of the pipeline. -/
theorem exists_failure_recordVerdict (m : Ensemble σ) (name : String) (verdict : Verdict) :
    ∃ failure, m.recordVerdict name verdict = { m with failure } := by
  unfold recordVerdict
  split <;> exact ⟨_, rfl⟩

/-! ### What a step leaves as it is -/

/-- What an action leaves as it is: how far commands have come, whether one failed, and which pipes
there are. -/
structure SameHouse (m m' : Ensemble σ) : Prop where
  seats : m'.seats = m.seats
  failure : m'.failure = m.failure
  capacity : m'.capacity = m.capacity
  pipes : m'.pipes.length = m.pipes.length

namespace SameHouse

theorem refl (m : Ensemble σ) : m.SameHouse m := ⟨rfl, rfl, rfl, rfl⟩

theorem trans (first : m.SameHouse m') (second : m'.SameHouse m'') : m.SameHouse m'' :=
  ⟨second.seats.trans first.seats, second.failure.trans first.failure,
    second.capacity.trans first.capacity, second.pipes.trans first.pipes⟩

theorem setPipe (m : Ensemble σ) (i : Nat) (p : Pipe) : m.SameHouse (m.setPipe i p) :=
  ⟨rfl, rfl, rfl, List.length_set⟩

theorem read? {limit : Nat} {bytes : Bytes} (read : m.read? i limit = some (bytes, m')) :
    m.SameHouse m' := by
  cases i with
  | zero =>
    cases read
    exact ⟨rfl, rfl, rfl, rfl⟩
  | succ before =>
    obtain ⟨_, _, same⟩ := Option.map_eq_some_iff.mp read
    cases same
    exact setPipe ..

theorem write? {sink : Sink} {bytes : Bytes} {result : Except StreamError Nat}
    (wrote : m.write? i sink bytes = some (result, m')) : m.SameHouse m' := by
  by_cases piped : sink = .pipe
  · subst piped
    obtain ⟨_, _, same⟩ := Option.map_eq_some_iff.mp wrote
    cases same
    exact setPipe ..
  · rw [m.write?_of_ne_pipe i piped] at wrote
    cases wrote
    exact ⟨rfl, rfl, rfl, rfl⟩

theorem release (m : Ensemble σ) (i : Nat) (sinks : PerOutput Sink) :
    m.SameHouse (m.release i sinks) := by
  have behind : ∀ m : Ensemble σ, m.SameHouse
      (if sinks.out = .pipe then m.setPipe i { m.pipeAt i with writerGone := true } else m) := by
    intro m
    split
    · exact setPipe ..
    · exact refl m
  cases i with
  | zero => exact behind m
  | succ before => exact (setPipe ..).trans (behind _)

/-- An action changes what flows through the pipes, but not which pipes there are. -/
theorem perform? {τ : Type} {sinks : PerOutput Sink} {action : Action τ} {next : τ}
    (performed : m.perform? i sinks action = some (next, m')) : m.SameHouse m' := by
  cases action with
  | finish verdict => cases performed
  | pass t | flush dest t | saved which t =>
    cases performed
    exact refl m
  | read limit got =>
    obtain ⟨_, read, same⟩ := Option.map_eq_some_iff.mp performed
    cases same
    exact .read? read
  | tryRead limit got dry =>
    simp only [Ensemble.perform?] at performed
    split at performed
    · next read =>
      cases performed
      exact .read? read
    · cases performed
      exact refl m
  | write dest bytes took =>
    obtain ⟨_, wrote, same⟩ := Option.map_eq_some_iff.mp performed
    cases same
    exact .write? wrote
  | tryWrite dest bytes took full =>
    simp only [Ensemble.perform?] at performed
    split at performed
    · next wrote =>
      cases performed
      exact .write? wrote
    · cases performed
      exact refl m
  | await input output t =>
    simp only [Ensemble.perform?] at performed
    split at performed
    · cases performed
      exact refl m
    · cases performed
  | release t =>
    cases performed
    exact release m i sinks
  | effect due run =>
    obtain ⟨_, _, same⟩ := Option.map_eq_some_iff.mp performed
    cases same
    exact ⟨rfl, rfl, rfl, rfl⟩

/-- A seat comes to another phase where it is. -/
theorem seats_setPhase (same : m.SameHouse m') (i : Nat) (phase : Phase σ) :
    (m'.setPhase i phase).seats = (m.setPhase i phase).seats := by
  rw [Ensemble.setPhase, Ensemble.setPhase, same.seats]

end SameHouse

/-- What steps of seats leave as it is: whose seats they are, where these write to and what is done
in the end, and which pipes there are. -/
structure SameFrame (m m' : Ensemble σ) : Prop where
  fixtures : m'.seats.map Seat.fixture = m.seats.map Seat.fixture
  capacity : m'.capacity = m.capacity
  pipes : m'.pipes.length = m.pipes.length

namespace SameFrame

theorem trans (first : m.SameFrame m') (second : m'.SameFrame m'') : m.SameFrame m'' :=
  ⟨second.fixtures.trans first.fixtures, second.capacity.trans first.capacity,
    second.pipes.trans first.pipes⟩

theorem of_sameHouse (same : m.SameHouse m') : m.SameFrame m' :=
  ⟨congrArg _ same.seats, same.capacity, same.pipes⟩

theorem setPhase (m : Ensemble σ) (i : Nat) (phase : Phase σ) : m.SameFrame (m.setPhase i phase) := by
  refine ⟨List.ext_getElem? fun j => ?_, rfl, rfl⟩
  rw [List.getElem?_map, List.getElem?_map]
  by_cases here : j = i
  · subst here
    rw [getElem?_setPhase_self, Option.map_map]
    rfl
  · rw [getElem?_setPhase_of_ne here]

theorem recordVerdict (m : Ensemble σ) (name : String) (verdict : Verdict) :
    m.SameFrame (m.recordVerdict name verdict) := by
  obtain ⟨failure, same⟩ := exists_failure_recordVerdict m name verdict
  rw [same]
  exact ⟨rfl, rfl, rfl⟩

end SameFrame

/-- Whatever step is taken, seats keep their places and their wiring. -/
theorem Move.sameFrame {deed : Option Deed} (move : Move act m i deed m') : m.SameFrame m' := by
  cases move with
  | finish | cutOff => exact .setPhase ..
  | go _ _ performed | close _ _ performed =>
    exact (SameFrame.of_sameHouse (.perform? performed)).trans (.setPhase ..)
  | conclude => exact (SameFrame.setPhase ..).trans (.recordVerdict ..)

/-- By induction on the schedule: places and wiring are what they were when nobody had stepped yet.
-/
theorem Schedule.sameFrame {log : List (Nat × Deed)} (schedule : Schedule act m log m') :
    m.SameFrame m' := by
  induction schedule with
  | start => exact ⟨rfl, rfl, rfl⟩
  | step _ step ih => exact ih.trans (move_of_step? step).sameFrame
  | elsewhere _ _ ih => exact ⟨ih.fixtures, ih.capacity, ih.pipes⟩

end Ensemble

namespace Execution

/-- The last command writes to no pipe. -/
theorem get_sinks_lastWiring (s : Segment) (p : Prepared) (dest : Output) :
    (lastWiring s p).sinks.get dest ≠ .pipe := by
  have opened : ∀ r : Redirect, ∀ which, r.sink which ≠ .pipe := by
    intro r which
    cases r <;> exact Sink.noConfusion
  have sink : ∀ (r : Option Redirect) which, (r.map (·.sink which)).getD (.caller which) ≠ .pipe := by
    intro r which
    cases r with
    | none => exact Sink.noConfusion
    | some r => exact opened r which
  by_cases merged : s.mergeErr
  · rw [lastWiring, if_pos merged]
    cases dest <;> exact sink p.output .out
  · rw [lastWiring, if_neg merged]
    cases dest with
    | out => exact sink p.output .out
    | err => exact sink p.error .err

end Execution

/-- Whether there is a pipe behind each seat but the last one, those with a pipe write to it and
nobody else does, and what is done in the end is what belongs to the wiring. -/
structure Ensemble.Fitted {σ : Type} (m : Ensemble σ) : Prop where
  seats : m.seats.length = m.pipes.length + 1
  out : ∀ {i seat}, m.seats[i]? = some seat → i < m.pipes.length → seat.sinks.out = .pipe
  pipe : ∀ {i seat dest}, m.seats[i]? = some seat → seat.sinks.get dest = .pipe → i < m.pipes.length
  closing : ∀ {i : Nat} {seat : Seat σ}, m.seats[i]? = some seat →
    ∃ w : Execution.Wiring, seat.sinks = w.sinks ∧ seat.closing = Execution.closing w

/-! ### Pipelines before they run -/

/-- A command that is about to run. -/
structure Place (σ : Type) where
  name : String
  start : σ
  wiring : Execution.Wiring

def Place.seat (p : Place σ) : Seat σ :=
  ⟨p.name, .command p.start, p.wiring.sinks, Execution.closing p.wiring⟩

/-- What belongs to a seat for good tells its name, its sinks and its closing. -/
theorem Place.of_fixture {seat : Seat σ} {p : Place σ} (same : seat.fixture = p.seat.fixture) :
    seat.name = p.name ∧ seat.sinks = p.wiring.sinks ∧
      seat.closing = Execution.closing p.wiring := by
  simpa [Seat.fixture, Place.seat] using same

/-- A pipeline that is about to run: the segments that another one follows with what their commands
start as, and the last one with the redirections that were opened for it. -/
structure Lineup (σ : Type) where
  inner : List (Segment × σ)
  last : Segment × σ
  prepared : Prepared

namespace Lineup

variable {σ : Type} {act : σ → Action σ} (l : Lineup σ)

def innerPlaces : List (Place σ) :=
  l.inner.map fun (s, start) => ⟨s.name, start, Execution.innerWiring s⟩

def lastPlace : Place σ :=
  ⟨l.last.1.name, l.last.2, Execution.lastWiring l.last.1 l.prepared⟩

/-- The commands in order, each with the wiring of its place. -/
def places : List (Place σ) := l.innerPlaces ++ [l.lastPlace]

def begin (world : World) (outlets : Outlets) (input : Bytes) (capacity : Nat) : Ensemble σ where
  world
  outlets
  input
  capacity
  pipes := List.replicate l.inner.length {}
  seats := l.places.map Place.seat

@[simp] theorem length_innerPlaces : l.innerPlaces.length = l.inner.length := List.length_map ..

@[simp] theorem length_places : l.places.length = l.inner.length + 1 := by
  simp [places]

variable {l} {i : Nat} {place : Place σ}

/-- What holds of each command as it starts holds of each place. -/
theorem forall_start {P : σ → Prop} (inner : ∀ c ∈ l.inner, P c.2) (last : P l.last.2) :
    ∀ place ∈ l.places, P place.start := by
  intro place member
  rcases List.mem_append.mp member with member | member
  · obtain ⟨c, inside, rfl⟩ := List.mem_map.mp member
    exact inner c inside
  · rw [List.mem_singleton.mp member]
    exact last

theorem getElem?_innerPlaces (found : l.places[i]? = some place) (inside : i < l.inner.length) :
    l.innerPlaces[i]? = some place := by
  rwa [places, List.getElem?_append_left (by simpa using inside)] at found

/-- Behind the inner commands there is only the last one. -/
theorem eq_lastPlace (found : l.places[i]? = some place) (outside : ¬ i < l.inner.length) :
    i = l.inner.length ∧ place = l.lastPlace := by
  have within := (List.getElem?_eq_some_iff.mp found).1
  rw [length_places] at within
  obtain rfl : i = l.inner.length := by omega
  rw [places, List.getElem?_append_right (by simp)] at found
  simp only [length_innerPlaces, Nat.sub_self, List.getElem?_cons_zero, Option.some.injEq] at found
  exact ⟨rfl, found.symm⟩

/-- A command that another one follows writes to its pipe. -/
theorem wiring_of_inner (found : l.places[i]? = some place) (inside : i < l.inner.length) :
    ∃ s, place.wiring = Execution.innerWiring s := by
  have found := getElem?_innerPlaces found inside
  rw [innerPlaces, List.getElem?_map] at found
  obtain ⟨⟨s, start⟩, -, rfl⟩ := Option.map_eq_some_iff.mp found
  exact ⟨s, rfl⟩

/-- Whether a command writes to a pipe tells whether another one follows. -/
theorem out_eq_pipe_iff (found : l.places[i]? = some place) :
    place.wiring.sinks.out = .pipe ↔ i < l.inner.length := by
  constructor
  · intro piped
    refine Decidable.byContradiction fun outside => ?_
    obtain ⟨-, rfl⟩ := eq_lastPlace found outside
    exact Execution.get_sinks_lastWiring _ _ .out piped
  · intro inside
    obtain ⟨s, wiring⟩ := wiring_of_inner found inside
    rw [wiring]
    rfl

end Lineup

namespace Execution

/-- The jobs of a pipeline are a lineup if there is a command with its arguments for each segment. -/
theorem exists_lineup {p : Prepared} {segments : List Segment} {commands : List Command}
    {args : List (List String)} (nonempty : segments ≠ [])
    (commandEach : commands.length = segments.length) (argsEach : args.length = segments.length) :
    ∃ l : Lineup (Script Verdict),
      (jobs p segments commands args).map Job.seat = l.places.map Place.seat := by
  induction segments, commands, args using jobs.induct with
  | case1 s command commands args more => exact ⟨⟨[], (s, (command args).toScript), p⟩, rfl⟩
  | case2 s segments command commands args more several ih =>
    have further : segments ≠ [] := by
      rintro rfl
      exact several rfl
    obtain ⟨l, same⟩ := ih further (Nat.succ.inj commandEach) (Nat.succ.inj argsEach)
    refine ⟨{ l with inner := (s, (command args).toScript) :: l.inner }, ?_⟩
    rw [jobs, List.map_cons, same]
    · rfl
    · exact several
  | case3 segments commands args single several =>
    obtain ⟨s, segments, rfl⟩ := List.exists_cons_of_ne_nil nonempty
    obtain ⟨command, commands, rfl⟩ := List.exists_cons_of_length_eq_add_one commandEach
    obtain ⟨words, args, rfl⟩ := List.exists_cons_of_length_eq_add_one argsEach
    exact absurd rfl (several _ _ _ _ _ _ rfl rfl)

/-- Several jobs run as their lineup does. -/
theorem runTogether_eq {l : Lineup (Script Verdict)} {js : List Job}
    (seats : js.map Job.seat = l.places.map Place.seat) (input : Bytes) (stage : Stage) :
    runTogether input js stage =
      ((l.begin stage.world stage.outlets input stage.world.settings.pipeCapacity).run?
        Script.act).map fun m =>
          (match m.failure with | none => .ok () | some failure => .error failure,
            ⟨m.world, m.outlets⟩) := by
  have pipes : js.length - 1 = l.inner.length := by
    have lengths := congrArg List.length seats
    simp only [List.length_map, Lineup.length_places] at lengths
    omega
  rw [runTogether, seats, pipes]
  rfl

/-- What the shell makes of several jobs is the end of a schedule. -/
theorem exists_schedule_of_runTogether {l : Lineup (Script Verdict)} {input : Bytes}
    {js : List Job} (seats : js.map Job.seat = l.places.map Place.seat) {stage stage' : Stage}
    {verdict : Verdict} (ran : runTogether input js stage = some (verdict, stage')) :
    ∃ log final, Ensemble.Schedule Script.act
        (l.begin stage.world stage.outlets input stage.world.settings.pipeCapacity) log final ∧
      final.running = [] ∧ stage' = ⟨final.world, final.outlets⟩ ∧
      (verdict.isOk ↔ final.failure = none) := by
  rw [runTogether_eq seats] at ran
  obtain ⟨final, ran, told⟩ := Option.map_eq_some_iff.mp ran
  obtain ⟨⟨log, schedule⟩, still⟩ := (Ensemble.drive?_eq_some_iff.mp ran).schedule
  refine ⟨log, final, schedule, still, ?_⟩
  cases failed : final.failure <;> rw [failed] at told <;> cases told <;>
    exact ⟨rfl, by simp [Except.isOk, Except.toBool]⟩

end Execution

/-- Each seat is the one of its place, in whichever phase. -/
theorem Ensemble.SameFrame.exists_place {σ : Type} {l : Lineup σ} {world : World}
    {outlets : Outlets} {input : Bytes} {capacity : Nat} {m : Ensemble σ}
    (frame : (l.begin world outlets input capacity).SameFrame m) {i : Nat} {seat : Seat σ}
    (here : m.seats[i]? = some seat) :
    ∃ place, l.places[i]? = some place ∧ seat.fixture = place.seat.fixture := by
  have same := congrArg (·[i]?) frame.fixtures
  simp only [List.getElem?_map, here, Lineup.begin, Option.map_map, Option.map_some] at same
  obtain ⟨place, found, fixture⟩ := Option.map_eq_some_iff.mp same.symm
  exact ⟨place, found, fixture.symm⟩

/-- There is a seat for each place. -/
theorem Ensemble.SameFrame.length_seats {σ : Type} {l : Lineup σ} {world : World}
    {outlets : Outlets} {input : Bytes} {capacity : Nat} {m : Ensemble σ}
    (frame : (l.begin world outlets input capacity).SameFrame m) :
    m.seats.length = l.places.length := by
  simpa [Lineup.begin] using congrArg List.length frame.fixtures

/-- The pipes of a pipeline stay where they are. -/
theorem Lineup.fitted {σ : Type} {act : σ → Action σ} {l : Lineup σ} {world : World}
    {outlets : Outlets} {input : Bytes} {capacity : Nat} {log : List (Nat × Deed)} {m : Ensemble σ}
    (schedule : Ensemble.Schedule act (l.begin world outlets input capacity) log m) :
    m.Fitted := by
  have pipes : m.pipes.length = l.inner.length := by
    rw [schedule.sameFrame.pipes]
    exact List.length_replicate
  have seats := schedule.sameFrame.length_seats
  refine ⟨by rw [seats, pipes, length_places], fun {i seat} here inside => ?_,
    fun {i seat dest} here piped => ?_, fun {i seat} here => ?_⟩
  · obtain ⟨place, found, fixture⟩ := schedule.sameFrame.exists_place here
    rw [(Place.of_fixture fixture).2.1, out_eq_pipe_iff found]
    exact pipes ▸ inside
  · obtain ⟨place, found, fixture⟩ := schedule.sameFrame.exists_place here
    rw [(Place.of_fixture fixture).2.1] at piped
    refine Decidable.byContradiction fun outside => ?_
    rw [pipes] at outside
    obtain ⟨-, rfl⟩ := eq_lastPlace found outside
    exact Execution.get_sinks_lastWiring _ _ dest piped
  · obtain ⟨place, -, fixture⟩ := schedule.sameFrame.exists_place here
    exact ⟨place.wiring, (Place.of_fixture fixture).2⟩

end StoreShell
