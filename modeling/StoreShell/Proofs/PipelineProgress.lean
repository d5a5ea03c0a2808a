import Mathlib.Data.Nat.Find
import StoreShell.Proofs.ConfinedScripts
import StoreShell.Proofs.PipeEnds

/-! # Progress of pipelines

Commands that wait for nothing but their streams never wait for each other in a circle. Whoever is
the first that has not ended has input, or the end of it, so if it waits then it waits for its reader;
that one has input, and waits if at all for the next one, up to the last command, which writes to no
pipe. The argument needs pipes that hold at least one byte, and seats that let go of their streams
when their commands have ended.
-/

namespace StoreShell

open Script (Concludes)

/-- Commands that wait for nothing but their streams: the world answers them at once, whatever it is
like, and what they come to is a command of the same kind. They may let go of their streams early. -/
structure StreamBound {σ : Type} (act : σ → Action σ) (P : σ → Prop) : Prop where
  gives : ∀ {s next}, P s → Ensemble.Gives (act s) next → P next
  effect : ∀ {s due run}, P s → act s = .effect due run →
    ∀ w, ∃ next w', run w = some (next, w') ∧ P next
  await : ∀ {s input output next}, P s → act s = .await input output next → input ∨ output

namespace Ensemble

variable {σ : Type} {act : σ → Action σ} {P : σ → Prop} {m m' : Ensemble σ} {i : Nat}
  {sinks : PerOutput Sink}

/-- How the streams of a seat are when its command is in a phase. -/
inductive Stands (P : σ → Prop) (m : Ensemble σ) (i : Nat) (sinks : PerOutput Sink) :
    Phase σ → Prop where
  | command {s} : P s → Stands P m i sinks (.command s)
  | closing {held s} : Concludes sinks (fun _ => True) held s →
      (held = false → m.LetGo i sinks) → Stands P m i sinks (.closing s)
  | ended : m.LetGo i sinks → Stands P m i sinks .ended

/-- Nobody gets back streams that were let go of. -/
theorem Stands.imp {phase : Phase σ} (stands : Stands P m i sinks phase)
    (keeps : m.LetGo i sinks → m'.LetGo i sinks) : Stands P m' i sinks phase := by
  cases stands with
  | command within => exact .command within
  | closing concludes gone => exact .closing concludes fun released => keeps (gone released)
  | ended gone => exact .ended (keeps gone)

/-- Whether every seat has let go of its streams if everything about its command has ended. -/
def Orderly (P : σ → Prop) (m : Ensemble σ) : Prop :=
  ∀ i seat, m.seats[i]? = some seat → Stands P m i seat.sinks seat.phase

/-- A seat comes to another phase. -/
theorem Orderly.advance (orderly : Orderly P m) {phase : Phase σ} {seat : Seat σ}
    (here : m.seats[i]? = some seat) (seats : m'.seats = (m.setPhase i phase).seats)
    (keeps : ∀ {j sinks}, m.LetGo j sinks → m'.LetGo j sinks)
    (stands : Stands P m' i seat.sinks phase) : Orderly P m' := by
  intro j seat' there
  by_cases same : j = i
  · subst same
    rw [seats, getElem?_setPhase_self, here] at there
    cases there
    exact stands
  · rw [seats, getElem?_setPhase_of_ne same] at there
    exact (orderly j seat' there).imp keeps

/-- Whatever a command that waits for its streams does, it stays such a command. -/
theorem within_of_perform? (bound : StreamBound act P) {s next : σ} (within : P s)
    (performed : m.perform? i sinks (act s) = some (next, m')) : P next := by
  rcases Ensemble.of_perform? performed with ⟨gives, -⟩ | ⟨due, run, world, effect, ran, -⟩
  · exact bound.gives within gives
  · obtain ⟨next', world', ran', within'⟩ := bound.effect within effect m.world
    rw [ran] at ran'
    cases ran'
    exact within'

private theorem stands_closing_of_perform? {s next : Script Verdict} {held : Bool} (fitted : m.Fitted)
    {seat : Seat σ} (here : m.seats[i]? = some seat)
    (concludes : Concludes seat.sinks (fun _ => True) held s)
    (gone : held = false → m.LetGo i seat.sinks)
    (performed : m.perform? i seat.sinks s.act = some (next, m')) :
    Stands P m' i seat.sinks (.closing next) := by
  rcases (concludes.of_perform? performed).2 with ⟨further, world, rfl⟩ | ⟨-, further, rfl⟩
  · exact .closing further gone
  · have inside := (List.getElem?_eq_some_iff.mp here).1
    have seats := fitted.seats
    have behind : seat.sinks.get .out = .pipe → i < m.pipes.length := fitted.pipe here
    exact .closing further fun _ => letGo_release (by omega) behind

private theorem stands_closing (fitted : m.Fitted) {seat : Seat σ}
    (here : m.seats[i]? = some seat) (verdict : Verdict) :
    Stands P m' i seat.sinks (.closing (seat.closing verdict)) := by
  obtain ⟨w, sinks, closing⟩ := fitted.closing here
  rw [sinks, closing]
  exact .closing ((Execution.concludes_closing w verdict).imp fun _ _ => trivial)
    fun released => by cases released

/-- Every step leaves the streams in order. -/
theorem Orderly.move (bound : StreamBound act P) (fitted : m.Fitted) (orderly : Orderly P m)
    {deed : Option Deed} (move : Move act m i deed m') : Orderly P m' := by
  cases move with
  | finish here phase ends => exact orderly.advance here rfl id (stands_closing fitted here _)
  | @go seat s s' m'' here phase performed =>
    have same := SameHouse.perform? performed
    have keeps : ∀ {j sinks}, m.LetGo j sinks → m''.LetGo j sinks := fun gone =>
      gone.perform? performed
    refine orderly.advance here (same.seats_setPhase ..) keeps ?_
    have stands := orderly i seat here
    rw [phase] at stands
    cases stands with
    | command within => exact .command (within_of_perform? bound within performed)
  | cutOff here phase waits cancelled =>
    exact orderly.advance here rfl id (stands_closing fitted here _)
  | @close seat s s' m'' here phase performed =>
    have same := SameHouse.perform? performed
    have keeps : ∀ {j sinks}, m.LetGo j sinks → m''.LetGo j sinks := fun gone =>
      gone.perform? performed
    refine orderly.advance here (same.seats_setPhase ..) keeps ?_
    have stands := orderly i seat here
    rw [phase] at stands
    cases stands with
    | closing concludes gone =>
      exact (stands_closing_of_perform? fitted here concludes gone performed).imp id
  | @conclude seat s verdict here phase ends =>
    have same : ∀ {j sinks}, m.LetGo j sinks →
        ((m.setPhase i .ended).recordVerdict seat.name verdict).LetGo j sinks := by
      intro j sinks gone
      obtain ⟨failure, same⟩ := exists_failure_recordVerdict (m.setPhase i .ended) seat.name verdict
      rw [same]
      exact gone
    refine orderly.advance here (seats_recordVerdict ..) same ?_
    have stands := orderly i seat here
    rw [phase] at stands
    cases stands with
    | closing concludes gone => exact .ended (same (gone (concludes.of_finish ends).1))

/-! ### Who waits for whom -/

private theorem pipe_of_write?_eq_none {sink : Sink} {bytes : Bytes}
    (full : m.write? i sink bytes = none) : m.isWritable i sink = false := by
  by_cases piped : sink = .pipe
  · subst piped
    have full := Option.map_eq_none_iff.mp full
    simp only [Pipe.write?] at full
    split at full
    · cases full
    · next alive =>
      split at full
      · next none =>
        simp only [isWritable, Pipe.isWritable, alive, Bool.false_or, decide_eq_false_iff_not]
        omega
      · cases full
  · rw [m.write?_of_ne_pipe i piped] at full
    cases full

private theorem dry_of_read?_eq_none {limit : Nat} (dry : m.read? i limit = none) :
    m.isReadable i = false := by
  cases i with
  | zero => cases dry
  | succ before =>
    have dry := Option.map_eq_none_iff.mp dry
    simp only [Pipe.read?] at dry
    split at dry
    · cases dry
    · next empty =>
      split at dry
      · cases dry
      · next open_ => simp [isReadable, Pipe.isReadable, empty, open_]

/-- A command that waits for its streams waits for input, or for one of its outputs to take
something. -/
theorem waits_for (bound : StreamBound act P) {s : σ} (within : P s)
    (going : ∀ verdict, act s ≠ .finish verdict)
    (waits : m.perform? i sinks (act s) = none) :
    m.isReadable i = false ∨ ∃ dest, m.isWritable i (sinks.get dest) = false := by
  cases action : act s with
  | finish verdict => exact absurd action (going verdict)
  | pass | flush | saved | release =>
    rw [action] at waits
    cases waits
  | read limit got =>
    rw [action] at waits
    exact Or.inl (dry_of_read?_eq_none (Option.map_eq_none_iff.mp waits))
  | tryRead limit got dry =>
    rw [action, perform?] at waits
    split at waits <;> cases waits
  | write dest bytes took =>
    rw [action] at waits
    exact Or.inr ⟨dest, pipe_of_write?_eq_none (Option.map_eq_none_iff.mp waits)⟩
  | tryWrite dest bytes took full =>
    rw [action, perform?] at waits
    split at waits <;> cases waits
  | await input output next =>
    rw [action, perform?] at waits
    split at waits
    · cases waits
    · next shut =>
      simp only [Bool.or_eq_true, Bool.and_eq_true, not_or, not_and, Bool.not_eq_true] at shut
      rcases bound.await within action with input | output
      · exact Or.inl (shut.1 input)
      · exact Or.inr ⟨.out, shut.2 output⟩
  | effect due run =>
    obtain ⟨next, w', ran, -⟩ := bound.effect within action m.world
    rw [action, perform?, ran] at waits
    cases waits

/-- What is done once a command has ended never waits. -/
theorem exists_command_of_asleep (orderly : Orderly P m) {seat : Seat σ}
    (here : m.seats[i]? = some seat) (going : ¬ seat.isEnded) (asleep : m.step? act i = none) :
    ∃ s, P s ∧ (∀ verdict, act s ≠ .finish verdict) ∧ m.perform? i seat.sinks (act s) = none := by
  have stands := orderly i seat here
  cases phase : seat.phase with
  | ended => exact absurd (by rw [Seat.isEnded, phase]) going
  | command s =>
    rw [phase] at stands
    cases stands with
    | command within =>
      have unfinished : ∀ verdict, act s ≠ .finish verdict := by
        intro verdict ends
        rw [step?_of_finish here phase ends] at asleep
        cases asleep
      refine ⟨s, within, unfinished, Option.eq_none_iff_forall_ne_some.mpr fun result performed => ?_⟩
      rw [step?_of_command here phase unfinished, performed] at asleep
      cases asleep
  | closing s =>
    rw [phase] at stands
    cases stands with
    | closing concludes gone =>
      by_cases ends : ∃ verdict, s.act = .finish verdict
      · obtain ⟨verdict, ends⟩ := ends
        rw [step?_of_finish_closing here phase ends] at asleep
        cases asleep
      · have goesOn := (concludes.finishes_or m i).resolve_left ends
        rw [step?_of_closing here phase (not_exists.mp ends), Option.map_eq_none_iff] at asleep
        rw [asleep] at goesOn
        cases goesOn

private theorem Orderly.letGo (orderly : Orderly P m) {seat : Seat σ}
    (here : m.seats[i]? = some seat) (ended : seat.isEnded) : m.LetGo i seat.sinks := by
  have stands := orderly i seat here
  rw [Seat.isEnded] at ended
  generalize seat.phase = phase at stands ended
  cases stands with
  | command | closing => cases ended
  | ended gone => exact gone

/-- If nobody can step then nobody has input: whoever had some would wait for its reader, which then
has some. -/
theorem not_isReadable_of_asleep (bound : StreamBound act P) (fitted : m.Fitted)
    (orderly : Orderly P m) (roomy : 0 < m.capacity) (asleep : ∀ j, m.step? act j = none)
    {seat : Seat σ} (here : m.seats[i]? = some seat) (going : ¬ seat.isEnded) :
    m.isReadable i = false := by
  induction behind : m.seats.length - i generalizing i seat with
  | zero =>
    have inside := (List.getElem?_eq_some_iff.mp here).1
    omega
  | succ behind ih =>
    obtain ⟨s, within, unfinished, waits⟩ := exists_command_of_asleep orderly here going (asleep i)
    rcases waits_for bound within unfinished waits with dry | ⟨dest, full⟩
    · exact dry
    · have piped : seat.sinks.get dest = .pipe := by
        revert full
        cases seat.sinks.get dest <;> simp [isWritable]
      rw [piped, isWritable, Pipe.isWritable, Bool.or_eq_false_iff, decide_eq_false_iff_not] at full
      obtain ⟨alive, full⟩ := full
      have inside := fitted.pipe here piped
      have seats := fitted.seats
      have next := List.getElem?_eq_getElem (l := m.seats) (i := i + 1) (by omega)
      have held : (m.pipeAt i).held ≠ [] := by
        intro empty
        rw [empty] at full
        exact full roomy
      have readable : m.isReadable (i + 1) := by
        simp [isReadable, Pipe.isReadable, held]
      have reads : ¬ m.seats[i + 1].isEnded := by
        intro ended
        rw [(orderly.letGo next ended).1 i rfl] at alive
        cases alive
      rw [ih next reads (by omega)] at readable
      cases readable

/-- Somebody can step as long as somebody has not ended: the first one of these has input. -/
theorem Orderly.step_of_running (bound : StreamBound act P) (fitted : m.Fitted)
    (orderly : Orderly P m) (roomy : 0 < m.capacity) :
    m.running = [] ∨ ∃ i, (m.step? act i).isSome := by
  refine Classical.or_iff_not_imp_right.mpr fun nobody => ?_
  have asleep : ∀ j, m.step? act j = none := by simpa using nobody
  refine Classical.byContradiction fun some_ => ?_
  have runs : ∃ i, i ∈ m.running := List.exists_mem_of_ne_nil _ some_
  obtain ⟨seat, here, going⟩ := mem_running.mp (Nat.find_spec runs)
  have dry := not_isReadable_of_asleep bound fitted orderly roomy asleep here going
  cases first : Nat.find runs with
  | zero =>
    rw [first] at dry
    cases dry
  | succ before =>
    rw [first] at dry here
    have seats := fitted.seats
    have inside := (List.getElem?_eq_some_iff.mp here).1
    have prior := List.getElem?_eq_getElem (l := m.seats) (i := before) (by omega)
    have ended : m.seats[before].isEnded := Decidable.byContradiction fun going =>
      Nat.find_min runs (m := before) (by omega) (mem_running.mpr ⟨_, prior, going⟩)
    have closed := (orderly.letGo prior ended).2 (fitted.out prior (by omega))
    rw [isReadable, Pipe.isReadable, closed, Bool.or_true] at dry
    cases dry

/-- The seats stay in order, whatever order the commands step in. -/
theorem Orderly.of_schedule {l : Lineup σ} (bound : StreamBound act P)
    (within : ∀ place ∈ l.places, P place.start) {world : World} {outlets : Outlets}
    {input : Bytes} {capacity : Nat} {log : List (Nat × Deed)}
    (schedule : Schedule act (l.begin world outlets input capacity) log m) : Orderly P m := by
  induction schedule with
  | start =>
    intro i seat here
    rw [Lineup.begin, List.getElem?_map] at here
    obtain ⟨place, found, rfl⟩ := Option.map_eq_some_iff.mp here
    exact .command (within place (List.mem_of_getElem? found))
  | step schedule step ih => exact ih.move bound (Lineup.fitted schedule) (move_of_step? step)
  | elsewhere _ _ ih => exact fun i seat here => (ih i seat here).imp id

end Ensemble

/-- Whatever order the commands of a pipeline step in, and whatever becomes of them, somebody can
step as long as not all have ended, if the pipes hold at least one byte and no command waits for
anything but its streams. -/
theorem Lineup.running_or_step {σ : Type} {act : σ → Action σ} {P : σ → Prop}
    (bound : StreamBound act P) {l : Lineup σ} (within : ∀ place ∈ l.places, P place.start)
    {capacity : Nat} (roomy : 0 < capacity) {world : World} {outlets : Outlets} {input : Bytes}
    {log : List (Nat × Deed)} {m : Ensemble σ}
    (schedule : Ensemble.Schedule act (l.begin world outlets input capacity) log m) :
    m.running = [] ∨ ∃ i, (m.step? act i).isSome :=
  (Ensemble.Orderly.of_schedule bound within schedule).step_of_running bound (fitted schedule)
    (schedule.sameFrame.capacity ▸ roomy)

/-! ### Scripts that wait for nothing but their streams -/

/-- Whether copying waits for its output only if there is something to write. -/
def Copying.Apt (c : Copying) : Prop := c.phase = .topUp ∨ c.phase = .wait false → c.held ≠ []

/-- Whether something that a script does is neither to list folders nor to hang. -/
def Script.Doing.IsUnlisted : Script.Doing → Prop
  | .claim .. | .list _ | .hang => False
  | .copy c => c.Apt
  | _ => True

/-- Scripts that neither list folders nor hang. -/
abbrev Script.Unlisted {α : Type} (s : Script α) : Prop := s.Confined Doing.IsUnlisted

namespace Script

private theorem apt_take {c : Copying} (bytes : Bytes) {phase : CopyPhase}
    (apt : phase = .topUp ∨ phase = .wait false → c.held ≠ []) : (c.take bytes phase).Apt := by
  unfold Copying.take Copying.Apt
  split
  · exact apt
  · exact fun held => by simp [apt held]

private theorem gives_copyAction {α : Type} {c : Copying} {next : Except StreamError Unit → Script α}
    (apt : c.Apt) (further : ∀ a, (next a).Unlisted) {s : Script α}
    (gives : Ensemble.Gives (copyAction c next) s) : s.Unlisted := by
  have copy : ∀ {c' : Copying}, c'.Apt → (Script.copy c' next).Unlisted := fun apt => .copy apt further
  have still : ∀ {c' : Copying}, c'.phase ≠ .topUp → c'.phase ≠ .wait false → c'.Apt :=
    fun top waits either => absurd either (not_or.mpr ⟨top, waits⟩)
  cases phase : c.phase <;> simp only [copyAction, phase] at gives
  case fill =>
    split at gives
    · cases gives with
      | tryRead bytes => exact copy (apt_take bytes (by simp))
      | dry =>
        refine copy (still ?_ ?_) <;> (unfold Copying.whenDry; dsimp only; split_ifs <;> simp)
    · cases gives
      exact copy (still (by simp) (by simp))
  case push =>
    split at gives
    · next held =>
      cases gives with
      | tryWrite result =>
        cases result with
        | error e => exact further _
        | ok n => exact copy (still (by simp) (by simp))
      | full => exact copy fun _ => by simpa using held
    · cases gives
      refine copy (still ?_ ?_) <;> (dsimp only; split <;> simp)
  case topUp =>
    have held : c.held ≠ [] := apt (Or.inl phase)
    cases gives with
    | tryRead bytes => exact copy (apt_take bytes fun _ => held)
    | dry => exact copy (still (by simp) (by simp))
  case idle =>
    cases gives with
    | flush result =>
      cases result with
      | error e => exact further _
      | ok _ => exact copy (still (by simp) (by simp))
  case finish =>
    cases gives
    exact further _
  case wait =>
    cases gives
    exact copy (still (by simp) (by simp))

/-- Scripts that neither list folders nor hang wait for nothing but their streams. -/
theorem streamBound_unlisted : StreamBound Script.act (Unlisted (α := Except Failure Unit)) where
  gives := by
    intro s next unlisted gives
    cases unlisted with
    | done | ask => cases gives
    | @write dest bytes next _ further =>
      rw [act] at gives
      split at gives
      · cases gives
        exact further _
      · cases gives with
        | write result =>
          cases result with
          | error e => exact further _
          | ok n => exact .write trivial further
    | flush _ further | saved _ further =>
      cases gives
      exact further _
    | copy apt further => exact gives_copyAction apt further gives
    | @collect room sofar next _ further =>
      rw [act] at gives
      split at gives
      · cases gives
        exact further _
      · cases gives with
        | read bytes =>
          dsimp only
          split
          · exact further _
          · exact .collect trivial further
    | release _ further =>
      cases gives
      exact further
    | claim lists | list lists | hang lists => cases lists
  effect := by
    intro s due run unlisted action w
    cases unlisted with
    | ask _ further =>
      cases action
      exact ⟨_, _, rfl, further _⟩
    | copy | write | collect =>
      simp only [act, copyAction] at action
      split at action <;> try split at action
      all_goals cases action
    | done | flush | saved | release => cases action
    | claim lists | list lists | hang lists => cases lists
  await := by
    intro s input output next unlisted action
    cases unlisted with
    | @copy c next apt further =>
      simp only [act, copyAction] at action
      split at action <;> try split at action
      all_goals cases action
      next phase =>
        cases input with
        | true => exact Or.inl rfl
        | false => exact Or.inr (by simpa using apt (Or.inr phase))
    | write | collect =>
      simp only [act] at action
      split at action <;> cases action
    | done | ask | flush | saved | release => cases action
    | claim lists | list lists | hang lists => cases lists

end Script

namespace Task

theorem unlisted_write (dest : Output) (bytes : Bytes) : (write dest bytes).toScript.Unlisted :=
  .write trivial fun _ => .done

theorem unlisted_copy : copy.toScript.Unlisted :=
  .copy (by rintro (h | h) <;> cases h) fun _ => .done

theorem unlisted_collect (room : Option Nat) : (collect room).toScript.Unlisted :=
  .collect trivial fun _ => .done

end Task

namespace Lineup

open Command.Probe

def floodIntoHead : Lineup (Script Verdict) where
  inner :=
    [({ name := "flood" }, (flood ["3"]).toScript), ({ name := "cat" }, (Command.cat []).toScript)]
  last := ({ name := "head" }, (head ["1"]).toScript)
  prepared := ⟨[], none, none, [["3"], [], ["1"]]⟩

/-- The pipe of a single byte behind `flood` is full, so `flood` has to wait, but somebody else can
step. -/
theorem exists_step_of_full : ∃ log m,
    Ensemble.Schedule Script.act (floodIntoHead.begin { remotes := [] } .willing [] 1) log m ∧
      m.step? Script.act 0 = none ∧ ∃ i, (m.step? Script.act i).isSome := by
  have unlisted : ∀ place ∈ floodIntoHead.places, place.start.Unlisted := by
    refine forall_start (List.forall_mem_cons.mpr ⟨?_, List.forall_mem_singleton.mpr ?_⟩) ?_
    · exact Script.Confined.andThen .done fun _ => Task.unlisted_write ..
    · exact Task.unlisted_copy
    · exact (Task.unlisted_collect _).andThen fun _ => Task.unlisted_write ..
  have evaluated : (((floodIntoHead.begin { remotes := [] } .willing [] 1).inOrder? Script.act []
      [0]).map fun (_, m) => (m.running, (m.step? Script.act 0).isNone)) =
        some ([0, 1, 2], true) := by
    decide +kernel
  obtain ⟨⟨log, m⟩, steps, shown⟩ := Option.map_eq_some_iff.mp evaluated
  simp only [Prod.mk.injEq, Option.isNone_iff_eq_none] at shown
  have schedule := Ensemble.Schedule.start.inOrder? steps
  refine ⟨log, m, schedule, shown.2, ?_⟩
  refine (running_or_step Script.streamBound_unlisted unlisted (by decide) schedule).resolve_left ?_
  rw [shown.1]
  exact List.cons_ne_nil 0 [1, 2]

end Lineup

end StoreShell
