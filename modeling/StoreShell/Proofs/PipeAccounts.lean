import StoreShell.Proofs.PipeEnds
import StoreShell.Proofs.StreamFunctions

/-! # Accounts of pipes

What a seat reads was at the front of its input and is there no longer, and what it writes to its
pipe is at the end of that and was not there before; no byte is lost, doubled or moved anywhere else.
`Ensemble.Passes` is this account of one action, and `Ensemble.exists_passes` says that there is one
for every action. What streams of the caller answer depends on what they refuse, which nobody changes.
-/

namespace StoreShell

namespace Pipe

variable {p q : Pipe} {limit : Nat} {bytes : Bytes}

/-- No more is read than asked for. -/
theorem length_le_of_read? (read : p.read? limit = some (bytes, q)) : bytes.length ≤ limit := by
  simp only [read?] at read
  split at read
  · cases read
    exact List.length_take_le ..
  · split at read <;> cases read
    exact Nat.zero_le _

/-- Whoever has room and gets nothing is at the end. -/
theorem over_of_read? (read : p.read? limit = some ([], q)) (roomy : 0 < limit) :
    p.held = [] ∧ p.writerGone := by
  simp only [read?] at read
  split at read
  · next some_ =>
    simp only [Option.some.injEq, Prod.mk.injEq, List.take_eq_nil_iff] at read
    rcases read.1 with none | empty
    · exact absurd none (Nat.ne_of_gt roomy)
    · simp [empty] at some_
  · next empty =>
    split at read
    · next gone => exact ⟨by simpa using empty, gone⟩
    · cases read

/-- What is refused is not in the pipe. -/
theorem eq_of_write?_error {capacity : Nat} {e : StreamError}
    (refused : p.write? capacity bytes = some (.error e, q)) : q = p := by
  simp only [write?] at refused
  split at refused
  · cases refused
    rfl
  · split at refused <;> cases refused

end Pipe

namespace Outlets

/-- Whether everything outside of pipes answers in the same way. -/
structure Alike (o o' : Outlets) : Prop where
  write : ∀ sink bytes, (o'.write sink bytes).1 = (o.write sink bytes).1
  flush : ∀ sink, o'.flush sink = o.flush sink

namespace Alike

theorem refl (o : Outlets) : o.Alike o := ⟨fun _ _ => rfl, fun _ => rfl⟩

theorem trans {o o' o'' : Outlets} (first : o.Alike o') (second : o'.Alike o'') : o.Alike o'' :=
  ⟨fun sink bytes => (second.write sink bytes).trans (first.write sink bytes),
    fun sink => (second.flush sink).trans (first.flush sink)⟩

/-- Answers do not change with what was written. -/
theorem of_write (o : Outlets) (sink : Sink) (bytes : Bytes) : o.Alike (o.write sink bytes).2 := by
  have same : ∀ (s : CallerStream) (bytes more : Bytes),
      ((s.write bytes).2.write more).1 = (s.write more).1 ∧ (s.write bytes).2.flush = s.flush := by
    rintro ⟨name, refuses, received⟩ bytes more
    cases refuses <;> exact ⟨rfl, rfl⟩
  cases sink with
  | discard | pipe => exact refl o
  | saved which =>
    refine ⟨fun sink more => ?_, fun sink => ?_⟩ <;> cases sink <;> rfl
  | caller which =>
    refine ⟨fun sink more => ?_, fun sink => ?_⟩
    · cases sink with
      | discard | pipe | saved _ => rfl
      | caller other =>
        cases which <;> cases other <;> first | rfl | exact (same _ bytes more).1
    · cases sink with
      | discard | pipe | saved _ => rfl
      | caller other =>
        cases which <;> cases other <;> first | rfl | exact (same _ bytes []).2

end Alike

end Outlets

/-- What a deed adds to what was written. -/
def Deed.writes : Deed → List (Output × UInt8)
  | .wrote dest bytes => bytes.map (dest, ·)
  | _ => []

def outputOf (log : List (Nat × Deed)) (i : Nat) : List (Output × UInt8) :=
  log.flatMap fun (j, deed) => if j = i then deed.writes else []

/-- A step adds to the output of its own seat what it wrote, and nothing to that of others. -/
theorem outputOf_append_step (log : List (Nat × Deed)) (i : Nat) (deed : Option Deed) (j : Nat) :
    outputOf (log ++ deed.toList.map (i, ·)) j =
      outputOf log j ++ if j = i then deed.toList.flatMap Deed.writes else [] := by
  rw [outputOf, List.flatMap_append]
  refine congrArg (outputOf log j ++ ·) ?_
  cases deed with
  | none => simp
  | some deed =>
    by_cases here : j = i
    · simp [here]
    · simp [here, Ne.symm here]

namespace Ensemble

variable {σ τ : Type} {m m' : Ensemble σ} {i : Nat} {sinks : PerOutput Sink} {action : Action τ}
  {next : τ}

/-- The input of a seat as a pipe: that of the first one is all there already. -/
def front (m : Ensemble σ) : Nat → Pipe
  | 0 => ⟨m.input, true, false⟩
  | before + 1 => m.pipeAt before

/-- Reading from a seat is reading from the pipe in front of it, or from the input of the pipeline.
-/
theorem front_of_read? {limit : Nat} {bytes : Bytes} (inside : i ≤ m.pipes.length)
    (read : m.read? i limit = some (bytes, m')) :
    (m.front i).read? limit = some (bytes, m'.front i) := by
  cases i with
  | zero =>
    cases read
    rw [front, front, Pipe.read?]
    cases input : m.input <;> simp
  | succ before =>
    obtain ⟨_, taken, same⟩ := Option.map_eq_some_iff.mp read
    cases same
    rw [front, front, pipeAt_setPipe_self inside]
    exact taken

/-- What an action does to the bytes in pipes: what the seat took from its input, and what it
wrote. -/
structure Passes (m m' : Ensemble σ) (i : Nat) (sinks : PerOutput Sink) (taken : Bytes)
    (deed : Option Deed) : Prop where
  front : (m.front i).held = taken ++ (m'.front i).held
  behind : (m'.pipeAt i).held = (m.pipeAt i).held ++
    through (fun dest => sinks.get dest = .pipe) (deed.toList.flatMap Deed.writes)
  others : ∀ k, k ≠ i → k + 1 ≠ i → (m'.pipeAt k).held = (m.pipeAt k).held
  input : i ≠ 0 → m'.input = m.input
  outlets : m.outlets.Alike m'.outlets

namespace Passes

/-- Nothing passes. -/
theorem of_same {deed : Option Deed} (input : m'.input = m.input)
    (pipes : ∀ k, (m'.pipeAt k).held = (m.pipeAt k).held) (outlets : m.outlets.Alike m'.outlets)
    (quiet : deed.toList.flatMap Deed.writes = []) :
    Passes m m' i sinks [] deed := by
  refine ⟨?_, ?_, fun k _ _ => pipes k, fun _ => input, outlets⟩
  · cases i with
    | zero => exact input.symm
    | succ before => exact (pipes before).symm
  · rw [pipes i, quiet, through_nil, List.append_nil]

/-- What is read passes from the pipe in front of a seat. -/
theorem of_read? {limit : Nat} {bytes : Bytes} (inside : i ≤ m.pipes.length)
    (read : m.read? i limit = some (bytes, m')) : Passes m m' i sinks bytes none := by
  have front := Pipe.held_of_read? (front_of_read? inside read)
  cases i with
  | zero =>
    cases read
    exact ⟨front, (List.append_nil _).symm, fun _ _ _ => rfl, fun first => absurd rfl first,
      .refl _⟩
  | succ before =>
    obtain ⟨_, _, same⟩ := Option.map_eq_some_iff.mp read
    cases same
    refine ⟨front, ?_, fun k _ other => ?_, fun _ => rfl, .refl _⟩
    · rw [pipeAt_setPipe_of_ne (Nat.succ_ne_self before)]
      exact (List.append_nil _).symm
    · rw [pipeAt_setPipe_of_ne fun same => other (congrArg Nat.succ same)]

/-- What is written passes into the pipe behind a seat, if the sink is that pipe. -/
theorem of_write? {dest : Output} {bytes : Bytes} {result : Except StreamError Nat}
    (inside : sinks.get dest = .pipe → i < m.pipes.length)
    (wrote : m.write? i (sinks.get dest) bytes = some (result, m')) :
    Passes m m' i sinks [] (Deed.ofWrite? dest bytes result) := by
  by_cases piped : sinks.get dest = .pipe
  · rw [piped] at wrote
    obtain ⟨⟨_, p⟩, put, same⟩ := Option.map_eq_some_iff.mp wrote
    cases same
    refine ⟨?_, ?_, fun k other _ => by rw [pipeAt_setPipe_of_ne other], fun _ => rfl, .refl _⟩
    · cases i with
      | zero => rfl
      | succ before =>
        rw [Ensemble.front, Ensemble.front, pipeAt_setPipe_of_ne (Nat.ne_of_lt (Nat.lt_succ_self _))]
        rfl
    · rw [pipeAt_setPipe_self (inside piped)]
      cases result with
      | ok n =>
        rw [Pipe.held_of_write? put]
        simp only [Deed.ofWrite?, Option.toList_some, List.flatMap_cons, List.flatMap_nil,
          List.append_nil, Deed.writes, through_map, piped, decide_true, if_true]
      | error e =>
        rw [Pipe.eq_of_write?_error put]
        exact (List.append_nil _).symm
  · rw [m.write?_of_ne_pipe i piped] at wrote
    obtain ⟨rfl, rfl⟩ := Prod.mk.inj (Option.some.inj wrote)
    refine ⟨by cases i <;> rfl, ?_, fun _ _ _ => rfl, fun _ => rfl, .of_write ..⟩
    cases (m.outlets.write (sinks.get dest) bytes).1 with
    | error e => exact (List.append_nil _).symm
    | ok _ => simp [Except.map, Deed.ofWrite?, Deed.writes, piped, pipeAt]

theorem of_release (m : Ensemble σ) (i : Nat) (sinks : PerOutput Sink) :
    Passes m (m.release i sinks) i sinks [] none := by
  have behind : ∀ (m : Ensemble σ) k, ((if sinks.out = .pipe then
      m.setPipe i { m.pipeAt i with writerGone := true } else m).pipeAt k).held =
        (m.pipeAt k).held := by
    intro m k
    split
    · rw [pipeAt_setPipe]
      split
      · next here => rw [here.1]
      · rfl
    · rfl
  refine of_same ?_ (fun k => ?_) ?_ rfl
  · cases i <;> rw [release] <;> split <;> rfl
  · cases i with
    | zero => exact behind m k
    | succ before =>
      rw [release, behind, pipeAt_setPipe]
      split
      · next here => rw [here.1]
      · rfl
  · have same : (m.release i sinks).outlets = m.outlets := by
      cases i <;> rw [release] <;> split <;> rfl
    exact same ▸ .refl _

/-- What passes does not depend on the phase that the seat comes to. -/
theorem setPhase {bytes : Bytes} {deed : Option Deed} (passes : Passes m m' i sinks bytes deed)
    (phase : Phase σ) : Passes m (m'.setPhase i phase) i sinks bytes deed :=
  ⟨passes.front, passes.behind, passes.others, passes.input, passes.outlets⟩

end Passes

/-- Every action passes on what it takes and writes. -/
theorem exists_passes (front : i ≤ m.pipes.length)
    (behind : ∀ dest, sinks.get dest = .pipe → i < m.pipes.length)
    (performed : m.perform? i sinks action = some (next, m')) :
    ∃ taken, Passes m m' i sinks taken (m.wrote? i sinks action) := by
  cases action with
  | finish verdict => cases performed
  | pass t | flush dest t | saved which t =>
    cases performed
    exact ⟨[], .of_same rfl (fun _ => rfl) (.refl _) rfl⟩
  | read limit got =>
    obtain ⟨⟨bytes, _⟩, read, same⟩ := Option.map_eq_some_iff.mp performed
    cases same
    exact ⟨bytes, .of_read? front read⟩
  | tryRead limit got dry =>
    simp only [perform?] at performed
    split at performed
    · next bytes _ read =>
      cases performed
      exact ⟨bytes, .of_read? front read⟩
    · cases performed
      exact ⟨[], .of_same rfl (fun _ => rfl) (.refl _) rfl⟩
  | write dest bytes took =>
    obtain ⟨_, wrote, same⟩ := Option.map_eq_some_iff.mp performed
    cases same
    rw [wrote?, wrote]
    exact ⟨[], .of_write? (behind dest) wrote⟩
  | tryWrite dest bytes took full =>
    simp only [perform?] at performed
    split at performed
    · next wrote =>
      cases performed
      rw [wrote?, wrote]
      exact ⟨[], .of_write? (behind dest) wrote⟩
    · next full =>
      cases performed
      rw [wrote?, full]
      exact ⟨[], .of_same rfl (fun _ => rfl) (.refl _) rfl⟩
  | await input output t =>
    simp only [perform?] at performed
    split at performed
    · cases performed
      exact ⟨[], .of_same rfl (fun _ => rfl) (.refl _) rfl⟩
    · cases performed
  | release t =>
    cases performed
    exact ⟨[], .of_release ..⟩
  | effect due run =>
    obtain ⟨_, _, same⟩ := Option.map_eq_some_iff.mp performed
    cases same
    exact ⟨[], rfl, (List.append_nil _).symm, fun _ _ _ => rfl, fun _ => rfl, .refl _⟩

end Ensemble

end StoreShell
