import StoreShell.Proofs.CoupledEnsembles

/-! # Coupled scripts that run together

Two ensembles with coupled scripts in their seats take their turns in step. While the seat at the
head of the queue takes silent steps, one ensemble may run ahead of the other; nobody else wakes up
meanwhile, because whoever is not in the queue waits at a stream operation and silent steps touch no
stream. `Resting` holds between two stream operations of the head and `Busy` within one.
-/

namespace StoreShell

variable {strict : Bool} {cache remote : Nat}

/-- How two seats are related between two stream operations of the head, given the queue. -/
def Between (strict : Bool) (cache remote : Nat) (queue : List Nat) (i : Nat)
    (s t : Script Verdict) : Prop :=
  Coupled strict cache remote s t ∧ (i ∉ queue → Abreast strict cache remote s.act t.act)

/-- Ensembles between two stream operations of the head of the queue. -/
structure Resting (strict : Bool) (cache remote : Nat) (queue : List Nat)
    (m n : Ensemble (Script Verdict)) : Prop where
  level : Level strict cache remote (Between strict cache remote queue) m n
  worlds : Matched strict cache remote m.world n.world
  asleep : ∀ i, i ∉ queue → m.step? Script.act i = none
  asleep' : ∀ i, i ∉ queue → n.step? Script.act i = none

/-- Ensembles whose heads stand before two scripts and have still to meet. -/
structure Busy (strict : Bool) (cache remote : Nat) (i : Nat) (waiting : List Nat)
    (s t : Script Verdict) (m n : Ensemble (Script Verdict)) : Prop where
  level : Level strict cache remote (fun j s' t' =>
    if j = i then s' = s ∧ t' = t else Between strict cache remote (i :: waiting) j s' t') m n
  running : i ∈ m.running
  asleep : ∀ j, j ∉ i :: waiting → m.step? Script.act j = none
  asleep' : ∀ j, j ∉ i :: waiting → n.step? Script.act j = none

theorem Between.symm {queue : List Nat} {i : Nat} {s t : Script Verdict}
    (between : Between strict cache remote queue i s t) :
    Between strict cache remote queue i t s :=
  ⟨between.1.symm, fun out => (between.2 out).symm⟩

theorem Resting.symm {queue : List Nat} {m n : Ensemble (Script Verdict)}
    (resting : Resting strict cache remote queue m n) : Resting strict cache remote queue n m :=
  ⟨resting.level.symm fun _ _ _ => Between.symm, resting.worlds.symm, resting.asleep',
    resting.asleep⟩

theorem Busy.symm {i : Nat} {waiting : List Nat} {s t : Script Verdict}
    {m n : Ensemble (Script Verdict)} (busy : Busy strict cache remote i waiting s t m n) :
    Busy strict cache remote i waiting t s n m := by
  refine ⟨busy.level.symm fun j s' t' related => ?_, busy.level.running_eq ▸ busy.running,
    busy.asleep', busy.asleep⟩
  by_cases here : j = i
  · rw [if_pos here] at related ⊢
    exact related.symm
  · rw [if_neg here] at related ⊢
    exact related.symm

section Turns

variable {m n : Ensemble (Script Verdict)} {i : Nat} {waiting : List Nat}

/-- Whoever woke up joins the queue. -/
theorem Level.resting {queue : List Nat}
    (level : Level strict cache remote (Between strict cache remote queue) m n)
    (worlds : Matched strict cache remote m.world n.world) :
    m.awake Script.act queue = n.awake Script.act queue ∧
      Resting strict cache remote (queue ++ m.awake Script.act queue) m n := by
  have same := level.awake_eq worlds.twins.left.live worlds.twins.right.live
    fun i out _ _ between => between.2 out
  have asleep : ∀ {k : Ensemble (Script Verdict)} {i}, i ∉ queue ++ k.awake Script.act queue →
      k.step? Script.act i = none := by
    intro k i out
    rw [List.mem_append, not_or, Ensemble.mem_awake, not_and] at out
    exact Option.not_isSome_iff_eq_none.mp (out.2 out.1)
  refine ⟨same, level.imp fun i s t between => ⟨between.1, fun out => between.2 fun member => ?_⟩,
    worlds, fun i => asleep, fun i out => asleep (same ▸ out)⟩
  exact out (List.mem_append_left _ member)

/-- A seat whose command has ended need not be in the queue. -/
theorem Resting.tail {queue : List Nat}
    (resting : Resting strict cache remote (i :: queue) m n) (finished : i ∉ m.running) :
    Resting strict cache remote queue m n := by
  refine ⟨resting.level.of_notMem_running finished fun j other s t between =>
    ⟨between.1, fun out => between.2 ?_⟩, resting.worlds, fun j out => ?_, fun j out => ?_⟩
  · exact fun member => out ((List.mem_cons.mp member).resolve_left other)
  · by_cases here : j = i
    · subst here
      exact Ensemble.step?_of_notMem_running finished
    · exact resting.asleep j fun member => out ((List.mem_cons.mp member).resolve_left here)
  · by_cases here : j = i
    · subst here
      rw [resting.level.running_eq] at finished
      exact Ensemble.step?_of_notMem_running finished
    · exact resting.asleep' j fun member => out ((List.mem_cons.mp member).resolve_left here)

/-- A head that is abreast has its turn in both ensembles. -/
theorem Level.turn? {turns : Ensemble.Turns} (queue : turns.queue = i :: waiting)
    (level : Level strict cache remote (fun j s t => Coupled strict cache remote s t ∧
      (j = i ∨ j ∉ waiting → Abreast strict cache remote s.act t.act)) m n)
    (worlds : Matched strict cache remote m.world n.world)
    (asleep : ∀ j, j ∉ i :: waiting → m.step? Script.act j = none)
    (asleep' : ∀ j, j ∉ i :: waiting → n.step? Script.act j = none) :
    ∃ turns' m' n', m.turn? Script.act turns = some (turns', m') ∧
      n.turn? Script.act turns = some (turns', n') ∧
        Resting strict cache remote turns'.queue m' n' := by
  have steps := level.step? worlds.twins.left.live worlds.twins.right.live (i := i)
    fun s t related => related.2 (Or.inl rfl)
  generalize left : m.step? Script.act i = x, right : n.step? Script.act i = y at steps
  cases steps with
  | none =>
    have rests : Level strict cache remote (Between strict cache remote waiting) m n :=
      level.imp fun j s t related => ⟨related.1, fun out => related.2 (Or.inr out)⟩
    obtain ⟨same, resting⟩ := rests.resting worlds
    rw [Ensemble.turn?_of_asleep queue left, Ensemble.turn?_of_asleep queue right,
      Ensemble.runBackground_eq worlds.twins.left.background,
      Ensemble.runBackground_eq worlds.twins.right.background, ← same]
    by_cases asked : turns.taken + 1 = turns.among
    · rw [if_pos asked, if_pos asked]
      refine ⟨_, m, n, rfl, ?_, resting⟩
      rw [Ensemble.startTurns, Ensemble.startTurns, level.running_eq]
    · rw [if_neg asked, if_neg asked]
      refine ⟨_, m, n, rfl, rfl, rests, worlds, fun j out => ?_, fun j out => ?_⟩
      · by_cases here : j = i
        · exact here ▸ left
        · exact asleep j (List.not_mem_cons_of_ne_of_not_mem here out)
      · by_cases here : j = i
        · exact here ▸ right
        · exact asleep' j (List.not_mem_cons_of_ne_of_not_mem here out)
  | @some m' n' stepped =>
    obtain ⟨level', kept, kept'⟩ := stepped
    have worlds' : Matched strict cache remote m'.world n'.world := by rwa [kept, kept']
    have rests : Level strict cache remote (Between strict cache remote (i :: waiting)) m' n' := by
      refine level'.imp fun j s t related => ?_
      by_cases here : j = i
      · rw [if_pos here] at related
        exact ⟨related, fun out => absurd (here ▸ List.mem_cons_self ..) out⟩
      · rw [if_neg here] at related
        exact ⟨related.1, fun out =>
          related.2 (Or.inr fun member => out (List.mem_cons_of_mem _ member))⟩
    obtain ⟨same, resting⟩ := rests.resting worlds'
    by_cases more : i ∈ m'.running
    · rw [Ensemble.turn?_of_step queue left more,
        Ensemble.turn?_of_step queue right (level'.running_eq ▸ more), ← same]
      exact ⟨_, m', n', rfl, rfl, resting⟩
    · rw [Ensemble.turn?_of_last_step queue left more,
        Ensemble.turn?_of_last_step queue right (level'.running_eq ▸ more), ← same]
      refine ⟨_, m', n', rfl, ?_, resting.tail more⟩
      rw [Ensemble.startTurns, Ensemble.startTurns, level'.running_eq]

private theorem Busy.silent_step {s s' t : Script Verdict} {w' : World}
    (busy : Busy strict cache remote i waiting s t m n)
    (step : s.silent? m.world = some (s', w')) :
    ∃ p, m.step? Script.act i = some (Ensemble.setPhase { m with world := w' } i p) ∧ p ≠ .ended ∧
      ∀ seat, n.seats[i]? = some seat → MatchedPhases (fun a b => a = s' ∧ b = t) p seat.phase := by
  obtain ⟨seat, here, going⟩ := Ensemble.mem_running.mp busy.running
  obtain ⟨due, run, action, ran⟩ := Script.act_of_silent? step
  have unfinished : ∀ verdict, s.act ≠ .finish verdict := by
    intro verdict finished
    rw [action] at finished
    cases finished
  have performed : m.perform? i seat.sinks s.act = some (s', { m with world := w' }) := by
    rw [action, Ensemble.perform?, ran]
    rfl
  have seats := busy.level.seats i
  rw [here] at seats
  generalize n.seats[i]? = y at seats ⊢
  cases seats with
  | @some _ seat' matched =>
    have phases : MatchedPhases (fun a b => a = s ∧ b = t) seat.phase seat'.phase :=
      matched.phase.imp fun a b related => by rwa [if_pos rfl] at related
    rw [Seat.isEnded] at going
    generalize phase : seat.phase = p, phase' : seat'.phase = q at phases going
    cases phases with
    | command related =>
      obtain ⟨rfl, rfl⟩ := related
      refine ⟨.command s', ?_, by simp, fun seat same => ?_⟩
      · rw [Ensemble.step?_of_command here phase unfinished, performed]
      · cases same
        exact phase' ▸ .command ⟨rfl, rfl⟩
    | closing related =>
      obtain ⟨rfl, rfl⟩ := related
      refine ⟨.closing s', ?_, by simp, fun seat same => ?_⟩
      · rw [Ensemble.step?_of_closing here phase unfinished, performed]
        rfl
      · cases same
        exact phase' ▸ .closing ⟨rfl, rfl⟩
    | ended => exact absurd rfl going

/-- A silent step of the head is a turn that wakes up nobody. -/
theorem Busy.silent {s s' t : Script Verdict} {w' : World} {turns : Ensemble.Turns}
    (busy : Busy strict cache remote i waiting s t m n) (queue : turns.queue = i :: waiting)
    (step : s.silent? m.world = some (s', w')) (live : w'.cancelled = false)
    (live' : n.world.cancelled = false) :
    ∃ m', m.turn? Script.act turns = some (turns, m') ∧ m'.world = w' ∧
      Busy strict cache remote i waiting s' t m' n := by
  obtain ⟨p, stepped, unended, phases⟩ := busy.silent_step step
  have level : Level strict cache remote (fun j a b =>
      if j = i then a = s' ∧ b = t else Between strict cache remote (i :: waiting) j a b)
      (Ensemble.setPhase { m with world := w' } i p) n := by
    refine ((busy.level.withWorlds w' n.world).setPhase_left phases).imp fun j a b related => ?_
    by_cases here : j = i
    · rwa [if_pos here] at related ⊢
    · rw [if_neg here, if_neg here] at related
      rwa [if_neg here]
  have asleep : ∀ j, j ∉ i :: waiting →
      (Ensemble.setPhase { m with world := w' } i p).step? Script.act j = none := by
    intro j out
    have other : j ≠ i := fun same => out (same ▸ List.mem_cons_self ..)
    have steps := level.step? live live' (i := j) fun a b related => by
      rw [if_neg other] at related
      exact related.2 out
    rw [busy.asleep' j out] at steps
    exact Option.not_isSome_iff_eq_none.mp (steps.isSome_eq ▸ Bool.false_ne_true)
  have running : i ∈ (Ensemble.setPhase { m with world := w' } i p).running := by
    obtain ⟨seat, here, -⟩ := Ensemble.mem_running.mp busy.running
    refine Ensemble.mem_running.mpr ⟨{ seat with phase := p }, ?_, ?_⟩
    · rw [Ensemble.getElem?_setPhase_self, here]
      rfl
    · cases p with
      | command _ | closing _ => exact Bool.false_ne_true
      | ended => exact absurd rfl unended
  refine ⟨_, ?_, rfl, level, running, asleep, busy.asleep'⟩
  rw [Ensemble.turn?_of_step queue stepped running, Ensemble.awake_eq_nil asleep,
    List.append_nil, ← queue]

/-- Ensembles at matched points of their runs, given whose turns come. -/
private inductive Following (strict : Bool) (cache remote : Nat) (turns : Ensemble.Turns)
    (m n : Ensemble (Script Verdict)) : Prop
  | resting : Resting strict cache remote turns.queue m n →
      Following strict cache remote turns m n
  | busy {i waiting s t} : turns.queue = i :: waiting →
      Busy strict cache remote i waiting s t m n →
      Alike strict cache remote s t m.world n.world → Following strict cache remote turns m n

private theorem Busy.follow {s t : Script Verdict} {turns turns' : Ensemble.Turns}
    {m' final : Ensemble (Script Verdict)} (next : m.turn? Script.act turns = some (turns', m'))
    (ih : ∀ n, Following strict cache remote turns' m' n →
      ∃ final', Ensemble.Drives Script.act turns' n final' ∧
        Resting strict cache remote [] final final')
    {w v : World} (alike : Alike strict cache remote s t w v) (here : m.world = w)
    (there : n.world = v) (queue : turns.queue = i :: waiting)
    (busy : Busy strict cache remote i waiting s t m n) :
    ∃ final', Ensemble.Drives Script.act turns n final' ∧
      Resting strict cache remote [] final final' := by
  have more : ∀ k : Ensemble (Script Verdict), ¬ (turns.queue = [] ∧ k.running = []) := by
    intro k finished
    rw [queue] at finished
    cases finished.1
  induction alike using Alike.silent_induction generalizing n with
  | left step alike _ =>
    subst here there
    obtain ⟨m'', turn, rfl, busy'⟩ := busy.silent queue step alike.live.1 alike.live.2
    rw [next] at turn
    cases turn
    exact ih n (.busy queue busy' alike)
  | right step alike again =>
    subst here there
    obtain ⟨n', turn, rfl, busy'⟩ := busy.symm.silent queue step alike.live.2 alike.live.1
    obtain ⟨final', drives, rests⟩ := again rfl rfl busy'.symm
    exact ⟨final', .turn (more n) turn drives, rests⟩
  | @met s t _ _ worlds coupled abreast =>
    subst here there
    have level : Level strict cache remote (fun j a b => Coupled strict cache remote a b ∧
        (j = i ∨ j ∉ waiting → Abreast strict cache remote a.act b.act)) m n := by
      refine busy.level.imp fun j a b related => ?_
      by_cases here : j = i
      · rw [if_pos here] at related
        obtain ⟨rfl, rfl⟩ := related
        exact ⟨coupled, fun _ => abreast⟩
      · rw [if_neg here] at related
        refine ⟨related.1, fun out => related.2 ?_⟩
        exact List.not_mem_cons_of_ne_of_not_mem here (out.resolve_left here)
    obtain ⟨turns'', m'', n', turn, turn', rests⟩ :=
      level.turn? queue worlds busy.asleep busy.asleep'
    rw [next] at turn
    cases turn
    obtain ⟨final', drives, rests'⟩ := ih n' (.resting rests)
    exact ⟨final', .turn (more n) turn' drives, rests'⟩

/-- Nobody waits for a time when all wait at a stream operation. -/
theorem Resting.turn?_eq_none {turns : Ensemble.Turns} (queue : turns.queue = [])
    (resting : Resting strict cache remote [] m n) : m.turn? Script.act turns = none := by
  refine Ensemble.turn?_of_dead queue resting.worlds.twins.left.background
    (fun i => resting.asleep i List.not_mem_nil) fun seat member => ?_
  obtain ⟨i, here⟩ := List.mem_iff_getElem?.mp member
  have seats := resting.level.seats i
  rw [here] at seats
  generalize n.seats[i]? = y at seats
  cases seats with
  | @some _ seat' matched =>
    have phases := matched.phase
    rw [Ensemble.dueOf?]
    generalize seat.phase = p, seat'.phase = q at phases
    cases phases with
    | command between =>
      dsimp only
      split
      · next effect => exact absurd effect ((between.2 List.not_mem_nil).ne_effect _ _)
      · rfl
    | closing _ | ended => rfl

/-- A head that runs is before two scripts that are alike. -/
theorem Resting.busy (resting : Resting strict cache remote (i :: waiting) m n)
    (running : i ∈ m.running) :
    ∃ s t, Alike strict cache remote s t m.world n.world ∧
      Busy strict cache remote i waiting s t m n := by
  obtain ⟨seat, here, going⟩ := Ensemble.mem_running.mp running
  have seats := resting.level.seats i
  rw [here] at seats
  generalize there : n.seats[i]? = y at seats
  cases seats with
  | @some _ seat' matched =>
    have whole : ∀ s t, MatchedPhases (fun a b => a = s ∧ b = t) seat.phase seat'.phase →
        Busy strict cache remote i waiting s t m n := by
      intro s t phases
      have level : Level strict cache remote (fun j => if j = i then fun a b => a = s ∧ b = t
          else Between strict cache remote (i :: waiting) j) m n := by
        refine resting.level.reseat fun a b left right _ => ?_
        rw [here] at left
        rw [there] at right
        cases left
        cases right
        exact phases
      refine ⟨level.imp fun j a b related => ?_, running, resting.asleep, resting.asleep'⟩
      by_cases same : j = i
      · rwa [if_pos same] at related ⊢
      · rwa [if_neg same] at related ⊢
    have phases := matched.phase
    rw [Seat.isEnded] at going
    generalize phase : seat.phase = p, phase' : seat'.phase = q at phases going
    cases phases with
    | @command s t between =>
      refine ⟨s, t, between.1 _ _ resting.worlds, whole s t ?_⟩
      rw [phase, phase']
      exact .command ⟨rfl, rfl⟩
    | @closing s t between =>
      refine ⟨s, t, between.1 _ _ resting.worlds, whole s t ?_⟩
      rw [phase, phase']
      exact .closing ⟨rfl, rfl⟩
    | ended => exact absurd rfl going

private theorem Following.drives {turns : Ensemble.Turns} {final : Ensemble (Script Verdict)}
    (drives : Ensemble.Drives Script.act turns m final)
    (following : Following strict cache remote turns m n) :
    ∃ final', Ensemble.Drives Script.act turns n final' ∧
      Resting strict cache remote [] final final' := by
  induction drives generalizing n with
  | @stop turns m empty still =>
    cases following with
    | resting rests =>
      rw [empty] at rests
      exact ⟨n, .stop empty (rests.level.running_eq ▸ still), rests⟩
    | busy queue =>
      rw [empty] at queue
      cases queue
  | @turn turns turns' m m' final more next _ ih =>
    have ih := @ih
    cases following with
    | busy queue busy alike =>
      exact busy.follow next (fun n following => ih following) alike rfl rfl queue
    | resting rests =>
      cases queue : turns.queue with
      | nil =>
        rw [queue] at rests
        rw [rests.turn?_eq_none queue] at next
        cases next
      | cons i waiting =>
        rw [queue] at rests
        by_cases running : i ∈ m.running
        · obtain ⟨s, t, alike, busy⟩ := rests.busy running
          exact busy.follow next (fun n following => ih following) alike rfl rfl queue
        · have level : Level strict cache remote (fun j a b => Coupled strict cache remote a b ∧
              (j = i ∨ j ∉ waiting → Abreast strict cache remote a.act b.act)) m n :=
            rests.level.of_notMem_running running
              fun j other a b between => ⟨between.1, fun out => between.2
                (List.not_mem_cons_of_ne_of_not_mem other (out.resolve_left other))⟩
          obtain ⟨turns'', m'', n', turn, turn', rests'⟩ :=
            level.turn? queue rests.worlds rests.asleep rests.asleep'
          rw [next] at turn
          cases turn
          obtain ⟨final', drives, finished⟩ := ih (.resting rests')
          exact ⟨final', .turn (by simp [queue]) turn' drives, finished⟩

end Turns

/-- Ensembles with coupled commands both end or both do not, and they end at matched points. -/
theorem Level.run? {m n : Ensemble (Script Verdict)}
    (level : Level strict cache remote (fun _ => Coupled strict cache remote) m n)
    (worlds : Matched strict cache remote m.world n.world) :
    Option.Rel (fun final final' => MatchedOutlets strict final.outlets final'.outlets ∧
        final.failure = final'.failure ∧ Matched strict cache remote final.world final'.world)
      (m.run? Script.act) (n.run? Script.act) := by
  have outside : ∀ {i}, i ∉ List.range m.seats.length →
      m.seats[i]? = none ∧ n.seats[i]? = none := by
    intro i out
    rw [List.getElem?_eq_none_iff, List.getElem?_eq_none_iff, ← level.length_seats]
    simpa using out
  have stuck : ∀ {k : Ensemble (Script Verdict)} {i}, k.seats[i]? = none →
      k.step? Script.act i = none := by
    intro k i nobody
    rw [Ensemble.step?, nobody]
    rfl
  have resting : Resting strict cache remote (List.range m.seats.length) m n := by
    refine ⟨⟨level.outlets, level.input, level.capacity, level.pipes, level.failure, fun i => ?_⟩,
      worlds, fun i out => stuck (outside out).1, fun i out => stuck (outside out).2⟩
    by_cases inside : i ∈ List.range m.seats.length
    · exact (level.seats i).imp fun _ _ matched =>
        matched.imp fun _ _ coupled => ⟨coupled, fun out => absurd inside out⟩
    · rw [(outside inside).1, (outside inside).2]
      exact .none
  have turns : m.startTurns (List.range m.seats.length) =
      n.startTurns (List.range n.seats.length) := by
    rw [Ensemble.startTurns, Ensemble.startTurns, level.running_eq, level.length_seats]
  cases left : m.run? Script.act with
  | some final =>
    rw [Ensemble.run?, Ensemble.drive?_eq_some_iff] at left
    obtain ⟨final', drives, rests⟩ := Following.drives left (.resting resting)
    rw [turns, ← Ensemble.drive?_eq_some_iff] at drives
    rw [Ensemble.run?, drives]
    exact .some ⟨rests.level.outlets, rests.level.failure, rests.worlds⟩
  | none =>
    cases right : n.run? Script.act with
    | none => exact .none
    | some final =>
      rw [Ensemble.run?, Ensemble.drive?_eq_some_iff, ← turns] at right
      obtain ⟨final', drives, rests⟩ := Following.drives right (.resting resting.symm)
      rw [← Ensemble.drive?_eq_some_iff] at drives
      rw [Ensemble.run?, drives] at left
      cases left

end StoreShell
