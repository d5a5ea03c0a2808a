import StoreShell.Proofs.Abreast
import StoreShell.Proofs.CoupledRuns
import StoreShell.Proofs.EnsembleRuns

/-! # Ensembles step by step

Two ensembles are level if they differ at most in their worlds, in what the error stream of the caller
received, and in the scripts before their commands, which are related seat by seat. A seat whose
scripts are abreast can step in both ensembles or in none; afterwards its scripts are coupled and
nothing else has changed.
-/

namespace StoreShell

variable {strict : Bool} {cache remote : Nat}

/-- How far two commands have come, with related scripts before them. -/
inductive MatchedPhases (rel : Script Verdict → Script Verdict → Prop) :
    Phase (Script Verdict) → Phase (Script Verdict) → Prop where
  | command {s t} : rel s t → MatchedPhases rel (.command s) (.command t)
  | closing {s t} : rel s t → MatchedPhases rel (.closing s) (.closing t)
  | ended : MatchedPhases rel .ended .ended

/-- Seats whose commands have come equally far and are to end in coupled ways. -/
structure MatchedSeats (strict : Bool) (cache remote : Nat)
    (rel : Script Verdict → Script Verdict → Prop) (seat seat' : Seat (Script Verdict)) :
    Prop where
  name : seat.name = seat'.name
  sinks : seat.sinks = seat'.sinks
  errs : OpenErr strict seat.sinks
  closing : ∀ verdict, Coupled strict cache remote (seat.closing verdict) (seat'.closing verdict)
  phase : MatchedPhases rel seat.phase seat'.phase

/-- Ensembles that differ at most in their worlds, what the error stream of the caller received, and
the scripts before the commands, which are related seat by seat. -/
structure Level (strict : Bool) (cache remote : Nat)
    (rel : Nat → Script Verdict → Script Verdict → Prop) (m n : Ensemble (Script Verdict)) :
    Prop where
  outlets : MatchedOutlets strict m.outlets n.outlets
  input : m.input = n.input
  capacity : m.capacity = n.capacity
  pipes : m.pipes = n.pipes
  failure : m.failure = n.failure
  seats : ∀ i, Option.Rel (MatchedSeats strict cache remote (rel i)) m.seats[i]? n.seats[i]?

section Symm

variable {rel rel' : Script Verdict → Script Verdict → Prop}

theorem MatchedPhases.imp {p q : Phase (Script Verdict)} (matched : MatchedPhases rel p q)
    (imp : ∀ s t, rel s t → rel' s t) : MatchedPhases rel' p q := by
  cases matched with
  | command related => exact .command (imp _ _ related)
  | closing related => exact .closing (imp _ _ related)
  | ended => exact .ended

theorem MatchedPhases.symm {p q : Phase (Script Verdict)} (matched : MatchedPhases rel p q)
    (imp : ∀ s t, rel s t → rel' t s) : MatchedPhases rel' q p := by
  cases matched with
  | command related => exact .command (imp _ _ related)
  | closing related => exact .closing (imp _ _ related)
  | ended => exact .ended

theorem MatchedSeats.imp {seat seat' : Seat (Script Verdict)}
    (matched : MatchedSeats strict cache remote rel seat seat') (imp : ∀ s t, rel s t → rel' s t) :
    MatchedSeats strict cache remote rel' seat seat' :=
  ⟨matched.name, matched.sinks, matched.errs, matched.closing, matched.phase.imp imp⟩

theorem MatchedSeats.symm {seat seat' : Seat (Script Verdict)}
    (matched : MatchedSeats strict cache remote rel seat seat') (imp : ∀ s t, rel s t → rel' t s) :
    MatchedSeats strict cache remote rel' seat' seat :=
  ⟨matched.name.symm, matched.sinks.symm, fun loose => matched.sinks ▸ matched.errs loose,
    fun verdict => (matched.closing verdict).symm, matched.phase.symm imp⟩

end Symm

namespace Level

variable {rel rel' : Nat → Script Verdict → Script Verdict → Prop} {m n : Ensemble (Script Verdict)}

theorem imp (level : Level strict cache remote rel m n) (imp : ∀ i s t, rel i s t → rel' i s t) :
    Level strict cache remote rel' m n :=
  ⟨level.outlets, level.input, level.capacity, level.pipes, level.failure,
    fun i => (level.seats i).imp fun _ _ matched => matched.imp (imp i)⟩

theorem symm (level : Level strict cache remote rel m n) (imp : ∀ i s t, rel i s t → rel' i t s) :
    Level strict cache remote rel' n m :=
  ⟨level.outlets.symm, level.input.symm, level.capacity.symm, level.pipes.symm,
    level.failure.symm, fun i => (level.seats i).flip fun _ _ matched => matched.symm (imp i)⟩

/-- Seats and pipes have nothing to do with the worlds they are in. -/
theorem withWorlds (level : Level strict cache remote rel m n) (w v : World) :
    Level strict cache remote rel { m with world := w } { n with world := v } :=
  ⟨level.outlets, level.input, level.capacity, level.pipes, level.failure, level.seats⟩

/-- Commands go on in a seat of both ensembles. -/
theorem setPhase (level : Level strict cache remote rel m n) {i : Nat}
    {p q : Phase (Script Verdict)} {related : Script Verdict → Script Verdict → Prop}
    (phases : MatchedPhases related p q) :
    Level strict cache remote (fun j => if j = i then related else rel j) (m.setPhase i p)
      (n.setPhase i q) := by
  refine ⟨level.outlets, level.input, level.capacity, level.pipes, level.failure, fun j => ?_⟩
  by_cases here : j = i
  · subst here
    rw [if_pos rfl, Ensemble.getElem?_setPhase_self, Ensemble.getElem?_setPhase_self]
    exact (level.seats j).map fun seat seat' matched =>
      ⟨matched.name, matched.sinks, matched.errs, matched.closing, phases⟩
  · rw [if_neg here, Ensemble.getElem?_setPhase_of_ne here, Ensemble.getElem?_setPhase_of_ne here]
    exact level.seats j

theorem length_seats (level : Level strict cache remote rel m n) :
    m.seats.length = n.seats.length := by
  have inside : ∀ i, m.seats.length ≤ i ↔ n.seats.length ≤ i := by
    intro i
    rw [← List.getElem?_eq_none_iff, ← List.getElem?_eq_none_iff, ← Option.not_isSome_iff_eq_none,
      ← Option.not_isSome_iff_eq_none, (level.seats i).isSome_eq]
  have := inside m.seats.length
  have := inside n.seats.length
  omega

/-- The same commands run. -/
theorem running_eq (level : Level strict cache remote rel m n) : m.running = n.running := by
  rw [Ensemble.running, Ensemble.running, level.length_seats]
  refine List.filter_congr fun i _ => congrArg not ?_
  refine (level.seats i).any_eq fun seat seat' matched => ?_
  have phases := matched.phase
  rw [Seat.isEnded, Seat.isEnded]
  generalize seat.phase = p, seat'.phase = q at phases
  cases phases <;> rfl

/-! ### One step -/

private theorem pipeAt_eq (level : Level strict cache remote rel m n) (i : Nat) :
    m.pipeAt i = n.pipeAt i := by
  rw [Ensemble.pipeAt, Ensemble.pipeAt, level.pipes]

private theorem isReadable_eq (level : Level strict cache remote rel m n) (i : Nat) :
    m.isReadable i = n.isReadable i := by
  cases i with
  | zero => rfl
  | succ before => rw [Ensemble.isReadable, Ensemble.isReadable, level.pipeAt_eq before]

private theorem isWritable_eq (level : Level strict cache remote rel m n) (i : Nat) (sink : Sink) :
    m.isWritable i sink = n.isWritable i sink := by
  cases sink with
  | pipe => rw [Ensemble.isWritable, Ensemble.isWritable, level.pipeAt_eq i, level.capacity]
  | discard | saved _ | caller _ => rfl

private theorem setPipe (level : Level strict cache remote rel m n) (i : Nat) (p : Pipe) :
    Level strict cache remote rel (m.setPipe i p) (n.setPipe i p) :=
  ⟨level.outlets, level.input, level.capacity, by rw [Ensemble.setPipe, level.pipes]; rfl,
    level.failure, level.seats⟩

private theorem read? (level : Level strict cache remote rel m n) (i limit : Nat) :
    Option.Rel (fun x y => x.1 = y.1 ∧ Level strict cache remote rel x.2 y.2) (m.read? i limit)
      (n.read? i limit) := by
  cases i with
  | zero =>
    refine .some ⟨by rw [level.input], level.outlets, ?_, level.capacity, level.pipes,
      level.failure, level.seats⟩
    simp only [level.input]
  | succ before =>
    rw [Ensemble.read?, Ensemble.read?, level.pipeAt_eq before]
    cases (n.pipeAt before).read? limit with
    | none => exact .none
    | some result => exact .some ⟨rfl, level.setPipe before result.2⟩

private theorem write? (level : Level strict cache remote rel m n) (i : Nat)
    {sinks : PerOutput Sink} (errs : OpenErr strict sinks) (dest : Output) (bytes : Bytes) :
    Option.Rel (fun x y => x.1 = y.1 ∧ Level strict cache remote rel x.2 y.2)
      (m.write? i (sinks.get dest) bytes) (n.write? i (sinks.get dest) bytes) := by
  have same : MatchedBytes strict dest bytes bytes := Or.inl rfl
  obtain ⟨result, outlets⟩ := level.outlets.write errs same
  generalize sinks.get dest = sink at result outlets
  by_cases piped : sink = .pipe
  · subst piped
    rw [Ensemble.write?, Ensemble.write?, level.pipeAt_eq i, level.capacity]
    cases (n.pipeAt i).write? n.capacity bytes with
    | none => exact .none
    | some result => exact .some ⟨rfl, level.setPipe i result.2⟩
  · rw [m.write?_of_ne_pipe i piped, n.write?_of_ne_pipe i piped]
    exact .some ⟨by rw [result], outlets, level.input, level.capacity, level.pipes, level.failure,
      level.seats⟩

private theorem release (level : Level strict cache remote rel m n) (i : Nat)
    (sinks : PerOutput Sink) :
    Level strict cache remote rel (m.release i sinks) (n.release i sinks) := by
  have behind : ∀ {m n : Ensemble (Script Verdict)}, Level strict cache remote rel m n →
      Level strict cache remote rel
        (if sinks.out = .pipe then m.setPipe i { m.pipeAt i with writerGone := true } else m)
        (if sinks.out = .pipe then n.setPipe i { n.pipeAt i with writerGone := true } else n) := by
    intro m n level
    rw [level.pipeAt_eq i]
    split
    · exact level.setPipe _ _
    · exact level
  cases i with
  | zero => exact behind level
  | succ before =>
    rw [Ensemble.release, Ensemble.release, level.pipeAt_eq before]
    exact behind (level.setPipe _ _)

/-- What is abreast is possible in both ensembles or in none. -/
theorem perform? (level : Level strict cache remote rel m n) (i : Nat) {sinks : PerOutput Sink}
    (errs : OpenErr strict sinks) {a b : Action (Script Verdict)}
    (abreast : Abreast strict cache remote a b) :
    Option.Rel (fun x y => Coupled strict cache remote x.1 y.1 ∧
      Level strict cache remote rel x.2 y.2) (m.perform? i sinks a) (n.perform? i sinks b) := by
  cases abreast with
  | finish verdict => exact .none
  | pass next => exact .some ⟨next, level⟩
  | read got =>
    refine (level.read? i _).map ?_
    rintro ⟨bytes, m'⟩ ⟨_, n'⟩ ⟨rfl, level'⟩
    exact ⟨got bytes, level'⟩
  | @tryRead limit got got' dry dry' reads dries =>
    have read := level.read? i limit
    rw [Ensemble.perform?, Ensemble.perform?]
    generalize m.read? i limit = x, n.read? i limit = y at read
    cases read with
    | none => exact .some ⟨dries, level⟩
    | some related =>
      obtain ⟨same, level'⟩ := related
      dsimp only
      rw [same]
      exact .some ⟨reads _, level'⟩
  | write took =>
    refine (level.write? i errs _ _).map ?_
    rintro ⟨result, m'⟩ ⟨_, n'⟩ ⟨rfl, level'⟩
    exact ⟨took result, level'⟩
  | @complain bytes bytes' took took' loose same fails takes =>
    obtain ⟨result, outlets⟩ := level.outlets.write errs same
    have told : sinks.get .err = .caller .err := errs loose
    rw [told] at result outlets
    have elsewhere : Sink.caller .err ≠ .pipe := Sink.noConfusion
    rw [Ensemble.perform?, Ensemble.perform?, told, m.write?_of_ne_pipe i elsewhere,
      n.write?_of_ne_pipe i elsewhere, result]
    refine .some ⟨?_, outlets, level.input, level.capacity, level.pipes, level.failure, level.seats⟩
    cases (n.outlets.write (.caller .err) bytes').1 with
    | error e => exact fails e
    | ok _ => exact takes
  | @tryWrite dest bytes took took' full full' takes fulls =>
    have wrote := level.write? i errs dest bytes
    rw [Ensemble.perform?, Ensemble.perform?]
    generalize m.write? i (sinks.get dest) bytes = x, n.write? i (sinks.get dest) bytes = y at wrote
    cases wrote with
    | none => exact .some ⟨fulls, level⟩
    | some related =>
      obtain ⟨same, level'⟩ := related
      dsimp only
      rw [same]
      exact .some ⟨takes _, level'⟩
  | await next =>
    rw [Ensemble.perform?, Ensemble.perform?, level.isReadable_eq i, level.isWritable_eq i]
    split
    · exact .some ⟨next, level⟩
    · exact .none
  | flush next =>
    rw [Ensemble.perform?, Ensemble.perform?, level.outlets.flush]
    exact .some ⟨next _, level⟩
  | saved next =>
    rw [Ensemble.perform?, Ensemble.perform?, level.outlets.saved]
    exact .some ⟨next _, level⟩
  | release next => exact .some ⟨next, level.release i sinks⟩

private theorem recordVerdict (level : Level strict cache remote rel m n) (name : String)
    (verdict : Verdict) :
    Level strict cache remote rel (m.recordVerdict name verdict) (n.recordVerdict name verdict) := by
  unfold Ensemble.recordVerdict
  rw [level.failure]
  split
  · exact ⟨level.outlets, level.input, level.capacity, level.pipes, rfl, level.seats⟩
  · exact ⟨level.outlets, level.input, level.capacity, level.pipes, level.failure, level.seats⟩

/-- Seats that are abreast step in both ensembles or in none. -/
theorem step? (level : Level strict cache remote rel m n) (live : m.world.cancelled = false)
    (live' : n.world.cancelled = false) {i : Nat}
    (abreast : ∀ s t, rel i s t → Abreast strict cache remote s.act t.act) :
    Option.Rel (fun m' n' => Level strict cache remote
        (fun j => if j = i then Coupled strict cache remote else rel j) m' n' ∧
        m'.world = m.world ∧ n'.world = n.world)
      (m.step? Script.act i) (n.step? Script.act i) := by
  have seats := level.seats i
  generalize here : m.seats[i]? = x, there : n.seats[i]? = y at seats
  cases seats with
  | none =>
    rw [Ensemble.step?, Ensemble.step?, here, there]
    exact .none
  | @some seat seat' matched =>
    have phases := matched.phase
    generalize phase : seat.phase = p, phase' : seat'.phase = q at phases
    cases phases with
    | ended =>
      rw [Ensemble.step?_of_ended here phase, Ensemble.step?_of_ended there phase']
      exact .none
    | @command s t related =>
      have side := abreast s t related
      rcases side.finish_or with ⟨verdict, ends, ends'⟩ | ⟨going, going'⟩
      · rw [Ensemble.step?_of_finish here phase ends, Ensemble.step?_of_finish there phase' ends']
        exact .some ⟨level.setPhase (.closing (matched.closing verdict)), rfl, rfl⟩
      · rw [Ensemble.step?_of_command here phase going,
          Ensemble.step?_of_command there phase' going', live, live', ← matched.sinks]
        have performed := level.perform? i matched.errs side
        generalize did : m.perform? i seat.sinks s.act = x, did' : n.perform? i seat.sinks t.act = y
          at performed
        cases performed with
        | none => exact .none
        | some related =>
          have kept := Ensemble.world_of_perform? side.ne_effect did
          have kept' := Ensemble.world_of_perform? side.symm.ne_effect did'
          exact .some ⟨related.2.setPhase (.command related.1), kept, kept'⟩
    | @closing s t related =>
      have side := abreast s t related
      rcases side.finish_or with ⟨verdict, ends, ends'⟩ | ⟨going, going'⟩
      · rw [Ensemble.step?_of_finish_closing here phase ends,
          Ensemble.step?_of_finish_closing there phase' ends', matched.name]
        exact .some ⟨(level.setPhase .ended).recordVerdict _ _, Ensemble.world_recordVerdict ..,
          Ensemble.world_recordVerdict ..⟩
      · rw [Ensemble.step?_of_closing here phase going,
          Ensemble.step?_of_closing there phase' going', ← matched.sinks]
        have performed := level.perform? i matched.errs side
        generalize did : m.perform? i seat.sinks s.act = x, did' : n.perform? i seat.sinks t.act = y
          at performed
        cases performed with
        | none => exact .none
        | some related =>
          have kept := Ensemble.world_of_perform? side.ne_effect did
          have kept' := Ensemble.world_of_perform? side.symm.ne_effect did'
          exact .some ⟨related.2.setPhase (.closing related.1), kept, kept'⟩

/-- Those who are abreast wake up in both ensembles or in none. -/
theorem awake_eq (level : Level strict cache remote rel m n) (live : m.world.cancelled = false)
    (live' : n.world.cancelled = false) {besides : List Nat}
    (abreast : ∀ i, i ∉ besides → ∀ s t, rel i s t → Abreast strict cache remote s.act t.act) :
    m.awake Script.act besides = n.awake Script.act besides := by
  rw [Ensemble.awake, Ensemble.awake, level.running_eq]
  refine List.filter_congr fun i _ => ?_
  by_cases beside : i ∈ besides
  · simp only [List.contains_iff_mem.mpr beside, Bool.not_true, Bool.false_and]
  · rw [(level.step? live live' (abreast i beside)).isSome_eq]

/-- What is known of the commands in one seat takes the place of what relates them. -/
theorem reseat (level : Level strict cache remote rel m n) {i : Nat}
    {related : Script Verdict → Script Verdict → Prop}
    (phases : ∀ seat seat', m.seats[i]? = some seat → n.seats[i]? = some seat' →
      MatchedPhases (rel i) seat.phase seat'.phase →
        MatchedPhases related seat.phase seat'.phase) :
    Level strict cache remote (fun j => if j = i then related else rel j) m n := by
  refine ⟨level.outlets, level.input, level.capacity, level.pipes, level.failure, fun j => ?_⟩
  have seats := level.seats j
  by_cases here : j = i
  · subst here
    rw [if_pos rfl]
    generalize left : m.seats[j]? = x, right : n.seats[j]? = y at seats
    cases seats with
    | none => exact .none
    | some matched =>
      exact .some ⟨matched.name, matched.sinks, matched.errs, matched.closing,
        phases _ _ left right matched.phase⟩
  · rw [if_neg here]
    exact seats

/-- Nothing is asked of the script of a seat whose command has ended. -/
theorem of_notMem_running (level : Level strict cache remote rel m n) {i : Nat}
    (still : i ∉ m.running) (imp : ∀ j, j ≠ i → ∀ s t, rel j s t → rel' j s t) :
    Level strict cache remote rel' m n := by
  have anew : Level strict cache remote (fun j => if j = i then rel' i else rel j) m n := by
    refine level.reseat fun seat seat' left _ phases => ?_
    have ended : seat.isEnded := Decidable.byContradiction fun going =>
      still (Ensemble.mem_running.mpr ⟨seat, left, going⟩)
    rw [Seat.isEnded] at ended
    generalize seat.phase = p, seat'.phase = q at phases ended
    cases phases with
    | command _ | closing _ => cases ended
    | ended => exact .ended
  refine anew.imp fun j s t related => ?_
  by_cases here : j = i
  · rw [if_pos here] at related
    exact here ▸ related
  · rw [if_neg here] at related
    exact imp j here s t related

/-- A command goes on in a seat of one ensemble only. -/
theorem setPhase_left (level : Level strict cache remote rel m n) {i : Nat}
    {p : Phase (Script Verdict)} {related : Script Verdict → Script Verdict → Prop}
    (phases : ∀ seat, n.seats[i]? = some seat → MatchedPhases related p seat.phase) :
    Level strict cache remote (fun j => if j = i then related else rel j) (m.setPhase i p) n := by
  refine ⟨level.outlets, level.input, level.capacity, level.pipes, level.failure, fun j => ?_⟩
  have seats := level.seats j
  by_cases here : j = i
  · subst here
    rw [if_pos rfl, Ensemble.getElem?_setPhase_self]
    generalize m.seats[j]? = x, right : n.seats[j]? = y at seats
    cases seats with
    | none => exact .none
    | some matched =>
      exact .some ⟨matched.name, matched.sinks, matched.errs, matched.closing, phases _ right⟩
  · rw [if_neg here, Ensemble.getElem?_setPhase_of_ne here]
    exact seats

end Level

end StoreShell
