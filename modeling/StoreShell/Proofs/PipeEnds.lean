import StoreShell.Proofs.Schedules

/-! # Ends of pipes

A pipe knows whether its reader and its writer are gone. Nothing but letting go of streams changes
that, and a command that has ended lets go of them before anything else is done that could take long:
what follows its end is a script that waits for nothing, reads and writes nothing, and lets go
exactly once. `Script.Concludes` describes such scripts together with the verdicts that they end
with, and `Execution.concludes_closing` tells these for the wirings of a pipeline.
-/

namespace StoreShell

def Action.releases : Action σ → Bool
  | .release _ => true
  | _ => false

namespace Pipe

variable {p q : Pipe}

/-- Reading closes neither end of a pipe. -/
theorem ends_of_read? {limit : Nat} {bytes : Bytes} (read : p.read? limit = some (bytes, q)) :
    q.readerGone = p.readerGone ∧ q.writerGone = p.writerGone := by
  simp only [read?] at read
  split at read
  · cases read
    exact ⟨rfl, rfl⟩
  · split at read <;> cases read
    exact ⟨rfl, rfl⟩

theorem ends_of_write? {capacity : Nat} {bytes : Bytes} {result : Except StreamError Nat}
    (wrote : p.write? capacity bytes = some (result, q)) :
    q.readerGone = p.readerGone ∧ q.writerGone = p.writerGone := by
  simp only [write?] at wrote
  split at wrote
  · cases wrote
    exact ⟨rfl, rfl⟩
  · split at wrote <;> cases wrote
    exact ⟨rfl, rfl⟩

end Pipe

namespace Ensemble

variable {σ τ : Type} {m m' : Ensemble σ} {i k : Nat} {sinks : PerOutput Sink} {action : Action τ}
  {next : τ}

/-! ### Pipes in their places -/

theorem pipeAt_setPipe_self (inside : i < m.pipes.length) (p : Pipe) :
    (m.setPipe i p).pipeAt i = p := by
  simp [pipeAt, setPipe, inside]

theorem pipeAt_setPipe_of_ne (other : k ≠ i) (p : Pipe) :
    (m.setPipe i p).pipeAt k = m.pipeAt k := by
  simp [pipeAt, setPipe, Ne.symm other]

/-- A pipe is changed or stays as it is. -/
theorem pipeAt_setPipe (m : Ensemble σ) (i k : Nat) (p : Pipe) :
    (m.setPipe i p).pipeAt k = if k = i ∧ i < m.pipes.length then p else m.pipeAt k := by
  split
  · next here =>
    rw [here.1, pipeAt_setPipe_self here.2]
  · next elsewhere =>
    by_cases same : k = i
    · subst same
      have outside : m.pipes.length ≤ k := Nat.le_of_not_lt fun inside => elsewhere ⟨rfl, inside⟩
      rw [pipeAt, setPipe, List.set_eq_of_length_le outside]
      rfl
    · exact pipeAt_setPipe_of_ne same p

/-- Whether the ends of pipes are the same in two ensembles. -/
def SameEnds (m m' : Ensemble σ) : Prop :=
  ∀ k, (m'.pipeAt k).readerGone = (m.pipeAt k).readerGone ∧
    (m'.pipeAt k).writerGone = (m.pipeAt k).writerGone

theorem sameEnds_setPipe {p : Pipe} (reader : p.readerGone = (m.pipeAt i).readerGone)
    (writer : p.writerGone = (m.pipeAt i).writerGone) : m.SameEnds (m.setPipe i p) := by
  intro k
  rw [pipeAt_setPipe]
  split
  · next here => rw [here.1, reader, writer]; exact ⟨rfl, rfl⟩
  · exact ⟨rfl, rfl⟩

theorem sameEnds_read? {limit : Nat} {bytes : Bytes} (read : m.read? i limit = some (bytes, m')) :
    m.SameEnds m' := by
  cases i with
  | zero =>
    cases read
    exact fun _ => ⟨rfl, rfl⟩
  | succ before =>
    obtain ⟨_, taken, same⟩ := Option.map_eq_some_iff.mp read
    cases same
    exact sameEnds_setPipe (Pipe.ends_of_read? taken).1 (Pipe.ends_of_read? taken).2

theorem sameEnds_write? {sink : Sink} {bytes : Bytes} {result : Except StreamError Nat}
    (wrote : m.write? i sink bytes = some (result, m')) : m.SameEnds m' := by
  by_cases piped : sink = .pipe
  · subst piped
    obtain ⟨_, put, same⟩ := Option.map_eq_some_iff.mp wrote
    cases same
    exact sameEnds_setPipe (Pipe.ends_of_write? put).1 (Pipe.ends_of_write? put).2
  · rw [m.write?_of_ne_pipe i piped] at wrote
    cases wrote
    exact fun _ => ⟨rfl, rfl⟩

/-- An action that does not let go of streams leaves the ends of all pipes as they are. -/
theorem sameEnds_of_perform? (keeps : action.releases = false)
    (performed : m.perform? i sinks action = some (next, m')) : m.SameEnds m' := by
  cases action with
  | finish verdict => cases performed
  | release t => cases keeps
  | pass t | flush dest t | saved which t =>
    cases performed
    exact fun _ => ⟨rfl, rfl⟩
  | read limit got =>
    obtain ⟨_, read, same⟩ := Option.map_eq_some_iff.mp performed
    cases same
    exact sameEnds_read? read
  | tryRead limit got dry =>
    simp only [perform?] at performed
    split at performed
    · next read =>
      cases performed
      exact sameEnds_read? read
    · cases performed
      exact fun _ => ⟨rfl, rfl⟩
  | write dest bytes took =>
    obtain ⟨_, wrote, same⟩ := Option.map_eq_some_iff.mp performed
    cases same
    exact sameEnds_write? wrote
  | tryWrite dest bytes took full =>
    simp only [perform?] at performed
    split at performed
    · next wrote =>
      cases performed
      exact sameEnds_write? wrote
    · cases performed
      exact fun _ => ⟨rfl, rfl⟩
  | await input output t =>
    simp only [perform?] at performed
    split at performed
    · cases performed
      exact fun _ => ⟨rfl, rfl⟩
    · cases performed
  | effect due run =>
    obtain ⟨_, _, same⟩ := Option.map_eq_some_iff.mp performed
    cases same
    exact fun _ => ⟨rfl, rfl⟩

/-! ### Letting go -/

/-- The reader of a pipe goes when the seat behind it lets go of its streams. -/
theorem readerGone_release (m : Ensemble σ) (i : Nat) (sinks : PerOutput Sink) (k : Nat) :
    ((m.release i sinks).pipeAt k).readerGone =
      ((m.pipeAt k).readerGone || decide (i = k + 1 ∧ k < m.pipes.length)) := by
  have behind : ∀ m : Ensemble σ, ((if sinks.out = .pipe then
      m.setPipe i { m.pipeAt i with writerGone := true } else m).pipeAt k).readerGone =
        (m.pipeAt k).readerGone := by
    intro m
    split
    · rw [pipeAt_setPipe]
      split
      · next here => rw [here.1]
      · rfl
    · rfl
  cases i with
  | zero =>
    rw [release, behind]
    simp
  | succ before =>
    rw [release, behind, pipeAt_setPipe]
    by_cases here : k = before
    · subst here
      by_cases inside : k < m.pipes.length <;> simp [inside]
    · simp [here, Ne.symm here]

/-- The writer of a pipe goes when the seat in front of it lets go of its streams. -/
theorem writerGone_release (m : Ensemble σ) (i : Nat) (sinks : PerOutput Sink) (k : Nat) :
    ((m.release i sinks).pipeAt k).writerGone =
      ((m.pipeAt k).writerGone || decide (i = k ∧ sinks.out = .pipe ∧ k < m.pipes.length)) := by
  have front : ∀ before, ((m.setPipe before { m.pipeAt before with readerGone := true }).pipeAt
      k).writerGone = (m.pipeAt k).writerGone := by
    intro before
    rw [pipeAt_setPipe]
    split
    · next here => rw [here.1]
    · rfl
  have behind : ∀ m' : Ensemble σ, m'.pipes.length = m.pipes.length →
      (m'.pipeAt k).writerGone = (m.pipeAt k).writerGone →
      ((if sinks.out = .pipe then m'.setPipe i { m'.pipeAt i with writerGone := true }
        else m').pipeAt k).writerGone =
        ((m.pipeAt k).writerGone || decide (i = k ∧ sinks.out = .pipe ∧ k < m.pipes.length)) := by
    intro m' pipes same
    by_cases piped : sinks.out = .pipe
    · rw [if_pos piped, pipeAt_setPipe, pipes]
      by_cases here : k = i
      · subst here
        by_cases inside : k < m.pipes.length <;> simp [inside, piped, same]
      · simp [here, Ne.symm here, same]
    · rw [if_neg piped, same]
      simp [piped]
  cases i with
  | zero => exact behind m rfl rfl
  | succ before => exact behind _ (SameHouse.setPipe ..).pipes (front before)

/-- Whether a seat has let go of its streams. -/
def LetGo (m : Ensemble σ) (i : Nat) (sinks : PerOutput Sink) : Prop :=
  (∀ before, i = before + 1 → (m.pipeAt before).readerGone) ∧
    (sinks.out = .pipe → (m.pipeAt i).writerGone)

/-- Whether a seat still has its streams. -/
def Holding (m : Ensemble σ) (i : Nat) (sinks : PerOutput Sink) : Prop :=
  (∀ before, i = before + 1 → (m.pipeAt before).readerGone = false) ∧
    (sinks.out = .pipe → (m.pipeAt i).writerGone = false)

/-- A seat that releases its streams has let go of both of its pipes. -/
theorem letGo_release (front : i ≤ m.pipes.length)
    (behind : sinks.out = .pipe → i < m.pipes.length) : (m.release i sinks).LetGo i sinks := by
  constructor
  · rintro before rfl
    rw [readerGone_release, decide_eq_true ⟨rfl, front⟩, Bool.or_true]
  · intro piped
    rw [writerGone_release, decide_eq_true ⟨rfl, piped, behind piped⟩, Bool.or_true]

/-- An action lets go of the streams of its seat, or leaves the ends of all pipes as they are. -/
theorem sameEnds_or_release (performed : m.perform? i sinks action = some (next, m')) :
    m.SameEnds m' ∨ m' = m.release i sinks := by
  cases releases : action.releases with
  | false => exact Or.inl (sameEnds_of_perform? releases performed)
  | true =>
    cases action <;> cases releases
    cases performed
    exact Or.inr rfl

theorem Holding.of_sameEnds {own : PerOutput Sink} (holding : m.Holding k own)
    (same : m.SameEnds m') : m'.Holding k own :=
  ⟨fun before here => (same before).1 ▸ holding.1 before here,
    fun piped => (same k).2 ▸ holding.2 piped⟩

/-- Whether nobody gets back streams that were let go of, and all seats but one keep theirs. -/
structure KeepsEnds (m m' : Ensemble σ) (i : Nat) : Prop where
  reader : ∀ k, (m.pipeAt k).readerGone → (m'.pipeAt k).readerGone
  writer : ∀ k, (m.pipeAt k).writerGone → (m'.pipeAt k).writerGone
  holding : ∀ j own, j ≠ i → m.Holding j own → m'.Holding j own

theorem KeepsEnds.of_sameEnds (same : m.SameEnds m') : m.KeepsEnds m' i :=
  ⟨fun k gone => (same k).1 ▸ gone, fun k gone => (same k).2 ▸ gone,
    fun _ _ _ holding => holding.of_sameEnds same⟩

theorem KeepsEnds.setPhase (keeps : m.KeepsEnds m' i) (phase : Phase σ) :
    m.KeepsEnds (m'.setPhase i phase) i :=
  ⟨keeps.reader, keeps.writer, keeps.holding⟩

/-- A pipe that still has its reader had it before. -/
theorem KeepsEnds.alive (keeps : m.KeepsEnds m' i) (alive : (m'.pipeAt k).readerGone = false) :
    (m.pipeAt k).readerGone = false := by
  refine Bool.eq_false_iff.mpr fun gone => ?_
  rw [keeps.reader k gone] at alive
  cases alive

/-- Whatever a seat does, the others keep their streams. -/
theorem KeepsEnds.of_perform? (performed : m.perform? i sinks action = some (next, m')) :
    m.KeepsEnds m' i := by
  rcases sameEnds_or_release performed with same | rfl
  · exact .of_sameEnds same
  · refine ⟨fun k gone => ?_, fun k gone => ?_, fun j own other holding => ?_⟩
    · rw [readerGone_release, gone, Bool.true_or]
    · rw [writerGone_release, gone, Bool.true_or]
    · refine ⟨fun before here => ?_, fun piped => ?_⟩
      · rw [readerGone_release, holding.1 before here]
        simp only [Bool.false_or, decide_eq_false_iff_not, not_and]
        exact fun same => absurd (here.trans same.symm) other
      · rw [writerGone_release, holding.2 piped]
        simp only [Bool.false_or, decide_eq_false_iff_not, not_and]
        exact fun same => absurd same.symm other

/-- Streams that were let go of stay so, whatever anybody does. -/
theorem LetGo.perform? {j : Nat} {own : PerOutput Sink} (gone : m.LetGo j own)
    (performed : m.perform? i sinks action = some (next, m')) : m'.LetGo j own :=
  have ends := KeepsEnds.of_perform? performed
  ⟨fun before here => ends.reader before (gone.1 before here),
    fun piped => ends.writer j (gone.2 piped)⟩

end Ensemble

/-! ### What is done once a command has ended -/

/-- Scripts that wait for nothing, whatever they are answered, neither read nor write, let go of the
streams once if these are still held, and end with a result of some kind. -/
inductive Script.Concludes {α : Type} (sinks : PerOutput Sink) (P : α → Prop) :
    Bool → Script α → Prop where
  | done {result} : P result → Concludes sinks P false (.done result)
  | ask {r next} : (∀ a, Concludes sinks P false (next a)) → Concludes sinks P false (.ask r next)
  | saved {which next} : (∀ content, Concludes sinks P false (next content)) →
      Concludes sinks P false (.saved which next)
  | flush {held dest next} :
      (∀ o : Outlets, Concludes sinks P held (next (o.flush (sinks.get dest)))) →
      Concludes sinks P held (.flush dest next)
  | release {next} : Concludes sinks P false next → Concludes sinks P true (.release next)

namespace Script.Concludes

variable {α β σ : Type} {sinks : PerOutput Sink} {P : α → Prop} {Q : β → Prop} {held : Bool}

/-- The first part lets go of the streams if it holds them, so the second one begins without. -/
theorem bind {s : Script α} (first : Concludes sinks P held s) {f : α → Script β}
    (second : ∀ a, P a → Concludes sinks Q false (f a)) : Concludes sinks Q held (s.bind f) := by
  induction first with
  | done result => exact second _ result
  | ask _ ih => exact .ask ih
  | saved _ ih => exact .saved ih
  | flush _ ih => exact .flush ih
  | release _ ih => exact .release ih

theorem imp {P' : α → Prop} (implies : ∀ a, P a → P' a) {s : Script α}
    (concludes : Concludes sinks P held s) : Concludes sinks P' held s := by
  induction concludes with
  | done result => exact .done (implies _ result)
  | ask _ ih => exact .ask ih
  | saved _ ih => exact .saved ih
  | flush _ ih => exact .flush ih
  | release _ ih => exact .release ih

variable {P : Verdict → Prop} {s : Script Verdict} {m m' : Ensemble σ} {i : Nat}

/-- Such a script has ended or can go on at once. -/
theorem finishes_or (concludes : Concludes sinks P held s) (m : Ensemble σ) (i : Nat) :
    (∃ verdict, s.act = .finish verdict) ∨ (m.perform? i sinks s.act).isSome := by
  cases concludes with
  | done => exact Or.inl ⟨_, rfl⟩
  | ask | saved | flush | release => exact Or.inr rfl

/-- A script that has ended holds no streams. -/
theorem of_finish (concludes : Concludes sinks P held s) {verdict : Verdict}
    (ends : s.act = .finish verdict) : held = false ∧ P verdict := by
  cases concludes with
  | done result =>
    cases ends
    exact ⟨rfl, result⟩
  | ask | saved | flush | release => cases ends

/-- What such a script does next concerns the world only, or is to let go of the streams. -/
theorem of_perform? (concludes : Concludes sinks P held s) {next : Script Verdict}
    (performed : m.perform? i sinks s.act = some (next, m')) :
    m.wrote? i sinks s.act = none ∧
      ((Concludes sinks P held next ∧ ∃ world, m' = { m with world }) ∨
        (held = true ∧ Concludes sinks P false next ∧ m' = m.release i sinks)) := by
  cases concludes with
  | done => cases performed
  | ask further =>
    cases performed
    exact ⟨rfl, Or.inl ⟨further _, _, rfl⟩⟩
  | saved further =>
    cases performed
    exact ⟨rfl, Or.inl ⟨further _, _, rfl⟩⟩
  | flush further =>
    cases performed
    exact ⟨rfl, Or.inl ⟨further _, _, rfl⟩⟩
  | release further =>
    cases performed
    exact ⟨rfl, Or.inr ⟨rfl, further, rfl⟩⟩

end Script.Concludes

namespace Execution

open Script (Concludes)

/-- Without redirections to close, the failure is what it was. -/
theorem concludes_closeAll (sinks : PerOutput Sink) (redirects : List (Output × Redirect))
    (failure : Option Failure) :
    Concludes sinks (fun later => redirects = [] → later = failure) false
      (closeAll failure redirects) := by
  induction redirects generalizing failure with
  | nil => exact .done fun _ => rfl
  | cons redirect rest ih =>
    obtain ⟨which, r⟩ := redirect
    refine .saved fun content => ?_
    have finished : Concludes sinks (fun _ => True) false (r.finish content).toScript := by
      cases r with
      | discard => exact .done trivial
      | upload remote cache path append =>
        refine .ask fun answer => ?_
        cases answer with
        | error failure => exact .done trivial
        | ok e => exact .ask fun _ => .done trivial
    refine finished.bind fun result _ => ?_
    cases result with
    | ok _ => exact (ih failure).imp fun _ _ nothing => by cases nothing
    | error later => exact (ih _).imp fun _ _ nothing => by cases nothing

/-- What is done once a command has ended: its streams are let go of, and the verdict is its own,
but for a reader that stopped early, unless something fails that is done in the end. Nothing can fail
after a command that another one follows. -/
theorem concludes_closing (w : Wiring) (verdict : Verdict) :
    Concludes w.sinks (fun final => ∃ failure,
        final = concludeWith (forgiveBrokenPipe (w.sinks.out = .pipe) verdict) failure ∧
        (w.sinks.out = .pipe → w.redirects = [] → failure = none))
      true (closing w verdict) := by
  refine .flush fun o => .release ?_
  have flushed : w.sinks.out = .pipe →
      flushFailure? (w.sinks.out = .pipe) (o.flush (w.sinks.get .out)) = none := by
    intro piped
    have nothing : o.flush (w.sinks.get .out) = .ok () := by
      rw [PerOutput.get, piped]
      rfl
    rw [nothing]
    rfl
  split
  · next cancelled =>
    exact .done ⟨none, by rw [cancelled]; rfl, fun _ _ => rfl⟩
  · refine (concludes_closeAll w.sinks w.redirects _).bind fun failure same => ?_
    exact .done ⟨failure, rfl, fun piped none => (same none).trans (flushed piped)⟩

end Execution

end StoreShell
