import StoreShell.Proofs.PipeEnds
import StoreShell.Trial

/-! # Failures of pipelines

The verdict on a command of a pipeline is made from how it ended: its own failure, unless that is a
broken pipe and another command follows. The kind of a failure is all that is looked at. So a broken
pipe that a command met anywhere else, in the store or at the error output of the caller, is taken
for a reader that stopped early, and the pipeline succeeds. Every other failure of a command fails the
pipeline, and it is the first verdict of failure that counts.
-/

namespace StoreShell

open Script (Concludes)

namespace Deed

/-- Whether a step changes more than the streams. -/
def isMilestone : Deed → Bool
  | wrote .. => false
  | _ => true

/-- How a command ended, by itself or not. -/
def ending? : Deed → Option Verdict
  | ended verdict => some verdict
  | cutOff => some (.error .cancelled)
  | _ => none

end Deed

/-- The milestones of a seat in a log. -/
def milestones (log : List (Nat × Deed)) (i : Nat) : List Deed :=
  log.filterMap fun (j, deed) => if j = i ∧ deed.isMilestone then some deed else none

/-- The milestones of a seat are the deeds in the log that are milestones. -/
theorem mem_milestones {log : List (Nat × Deed)} {i : Nat} {deed : Deed} :
    deed ∈ milestones log i ↔ (i, deed) ∈ log ∧ deed.isMilestone := by
  simp only [milestones, List.mem_filterMap, Prod.exists]
  constructor
  · rintro ⟨j, found, member, told⟩
    split at told
    · next here =>
      cases told
      exact ⟨here.1 ▸ member, here.2⟩
    · cases told
  · rintro ⟨member, milestone⟩
    exact ⟨i, deed, member, if_pos ⟨rfl, milestone⟩⟩

/-- A step adds at most one milestone, to its own seat. -/
theorem milestones_append_step (log : List (Nat × Deed)) (i : Nat) (deed : Option Deed) (j : Nat) :
    milestones (log ++ deed.toList.map (i, ·)) j =
      milestones log j ++ if j = i then deed.toList.filter Deed.isMilestone else [] := by
  rw [milestones, List.filterMap_append]
  refine congrArg (milestones log j ++ ·) ?_
  cases deed with
  | none => simp
  | some deed =>
    by_cases here : j = i
    · subst here
      cases milestone : deed.isMilestone <;> simp [milestone]
    · simp [here, Ne.symm here]

namespace Execution

/-- The verdicts that a wiring may lead to when a command ends in some way. -/
def Wiring.Concludable (w : Wiring) (verdict final : Verdict) : Prop :=
  ∃ failure, final = concludeWith (forgiveBrokenPipe (w.sinks.out = .pipe) verdict) failure ∧
    (w.sinks.out = .pipe → w.redirects = [] → failure = none)

namespace Wiring.Concludable

variable {w : Wiring} {failure : Failure} {final : Verdict}

/-- A broken pipe of a command that another one follows is no failure. -/
theorem of_forgiven {s : Segment} (broken : failure.isBrokenPipe)
    (possible : (innerWiring s).Concludable (.error failure) final) : final = .ok () := by
  obtain ⟨later, rfl, none⟩ := possible
  rw [none rfl rfl, forgiveBrokenPipe, if_pos (by rw [broken]; rfl)]
  rfl

/-- Any other failure stays the verdict, whatever happens in the end. -/
theorem of_not_forgiven (counts : ¬ (w.sinks.out = .pipe ∧ failure.isBrokenPipe))
    (possible : w.Concludable (.error failure) final) : final = .error failure := by
  obtain ⟨later, rfl, -⟩ := possible
  rw [forgiveBrokenPipe, if_neg (by simpa using counts)]
  rfl

end Wiring.Concludable

end Execution

/-- How the phase of a seat belongs to its milestones. -/
inductive Story {σ : Type} (w : Execution.Wiring) : Phase σ → List Deed → Prop where
  | command {s} : Story w (.command s) []
  | closing {held s deed verdict} : deed.ending? = some verdict →
      Concludes w.sinks (w.Concludable verdict) held s → Story w (.closing s) [deed]
  | ended {deed verdict final} : deed.ending? = some verdict → w.Concludable verdict final →
      Story w .ended [deed, .concluded final]

namespace Lineup

variable {σ : Type} (l : Lineup σ)

/-- The failure that a deed is for a pipeline. -/
def failureOf? (i : Nat) : Deed → Option Failure
  | .concluded (.error failure) => l.places[i]?.map fun place => .inSegment place.name failure
  | _ => none

/-- The first failure in a log, under the name of its command. -/
def firstFailure? (log : List (Nat × Deed)) : Option Failure :=
  log.findSome? fun (i, deed) => l.failureOf? i deed

/-- A failure that was there before a step stays the first one. -/
theorem firstFailure?_append_step (log : List (Nat × Deed)) (i : Nat) (deed : Option Deed) :
    l.firstFailure? (log ++ deed.toList.map (i, ·)) =
      (l.firstFailure? log).or (deed.bind (l.failureOf? i)) := by
  rw [firstFailure?, List.findSome?_append]
  cases deed with
  | none => rfl
  | some deed =>
    refine congrArg (Option.or _) ?_
    simp

/-- Whether an ensemble stands as a log tells. -/
structure Tells (log : List (Nat × Deed)) (m : Ensemble σ) : Prop where
  failure : m.failure = l.firstFailure? log
  nobody : ∀ {i}, m.seats[i]? = none → milestones log i = []
  story : ∀ {i seat}, m.seats[i]? = some seat → ∃ place, l.places[i]? = some place ∧
    seat.fixture = place.seat.fixture ∧ Story place.wiring seat.phase (milestones log i)

namespace Tells

open Ensemble

variable {l} {act : σ → Action σ} {log : List (Nat × Deed)} {m m' : Ensemble σ} {i : Nat}
  {deed : Option Deed}

/-- The empty log tells how a pipeline begins. -/
theorem begin (l : Lineup σ) (world : World) (outlets : Outlets) (input : Bytes) (capacity : Nat) :
    l.Tells [] (l.begin world outlets input capacity) := by
  refine ⟨rfl, fun _ => rfl, fun {i seat} here => ?_⟩
  rw [Lineup.begin, List.getElem?_map] at here
  obtain ⟨place, found, rfl⟩ := Option.map_eq_some_iff.mp here
  exact ⟨place, found, rfl, .command⟩

private theorem advance (tells : l.Tells log m) {seat : Seat σ} (here : m.seats[i]? = some seat)
    {place : Place σ} (found : l.places[i]? = some place)
    (fixture : seat.fixture = place.seat.fixture) {phase : Phase σ}
    (seats : m'.seats = (m.setPhase i phase).seats)
    (failure : m'.failure = m.failure.or (deed.bind (l.failureOf? i)))
    (story : Story place.wiring phase
      (milestones log i ++ deed.toList.filter Deed.isMilestone)) :
    l.Tells (log ++ deed.toList.map (i, ·)) m' := by
  refine ⟨?_, fun {j} none => ?_, fun {j seat'} there => ?_⟩
  · rw [failure, tells.failure, l.firstFailure?_append_step]
  · have other : j ≠ i := by
      rintro rfl
      rw [seats, getElem?_setPhase_self, here] at none
      cases none
    rw [seats, getElem?_setPhase_of_ne other] at none
    rw [milestones_append_step, tells.nobody none, if_neg other, List.append_nil]
  · rw [milestones_append_step]
    by_cases same : j = i
    · subst same
      rw [seats, getElem?_setPhase_self, here] at there
      cases there
      rw [if_pos rfl]
      exact ⟨place, found, fixture, story⟩
    · rw [seats, getElem?_setPhase_of_ne same] at there
      rw [if_neg same, List.append_nil]
      exact tells.story there

/-- What is worth telling of an action is that bytes were written. -/
theorem eq_wrote_of_wrote? {τ : Type} {sinks : PerOutput Sink} {action : Action τ}
    {deed : Deed} (told : m.wrote? i sinks action = some deed) :
    ∃ dest bytes, deed = .wrote dest bytes := by
  cases action with
  | write dest bytes | tryWrite dest bytes =>
    obtain ⟨⟨result, _⟩, -, told⟩ := Option.bind_eq_some_iff.mp told
    cases result <;> cases told
    exact ⟨_, _, rfl⟩
  | _ => cases told

/-- Writing is no milestone. -/
theorem filter_wrote? {τ : Type} {sinks : PerOutput Sink} {action : Action τ} :
    (m.wrote? i sinks action).toList.filter Deed.isMilestone = [] := by
  cases told : m.wrote? i sinks action with
  | none => rfl
  | some deed =>
    obtain ⟨dest, bytes, rfl⟩ := eq_wrote_of_wrote? told
    rfl

private theorem bind_wrote? {τ : Type} {sinks : PerOutput Sink} {action : Action τ} :
    (m.wrote? i sinks action).bind (l.failureOf? i) = none := by
  cases told : m.wrote? i sinks action with
  | none => rfl
  | some deed =>
    obtain ⟨dest, bytes, rfl⟩ := eq_wrote_of_wrote? told
    rfl

/-- The verdict on a command is a failure of the pipeline unless there is one already. -/
theorem failure_recordVerdict {place : Place σ} (found : l.places[i]? = some place)
    (m : Ensemble σ) (verdict : Verdict) :
    (m.recordVerdict place.name verdict).failure =
      m.failure.or (l.failureOf? i (.concluded verdict)) := by
  cases failed : m.failure with
  | none => cases verdict <;> simp [recordVerdict, failed, failureOf?, found]
  | some failure => simp [recordVerdict, failed]

private theorem move (tells : l.Tells log m) (move : Move act m i deed m') :
    l.Tells (log ++ deed.toList.map (i, ·)) m' := by
  cases move with
  | @finish seat s verdict here phase ends =>
    obtain ⟨place, found, fixture, story⟩ := tells.story here
    obtain ⟨-, -, closing⟩ := Place.of_fixture fixture
    refine tells.advance here found fixture rfl Option.or_none.symm ?_
    rw [phase] at story
    generalize milestones log i = told at story
    cases story
    rw [closing]
    exact .closing rfl (Execution.concludes_closing ..)
  | @go seat s s' m'' here phase performed =>
    obtain ⟨place, found, fixture, story⟩ := tells.story here
    have same := SameHouse.perform? performed
    refine tells.advance here found fixture (same.seats_setPhase ..) ?_ ?_
    · rw [bind_wrote?, Option.or_none]
      exact same.failure
    · rw [phase] at story
      rw [filter_wrote?, List.append_nil]
      generalize milestones log i = told at story
      cases story
      exact .command
  | @cutOff seat s here phase waits cancelled =>
    obtain ⟨place, found, fixture, story⟩ := tells.story here
    obtain ⟨-, -, closing⟩ := Place.of_fixture fixture
    refine tells.advance here found fixture rfl Option.or_none.symm ?_
    rw [phase] at story
    generalize milestones log i = told at story
    cases story
    rw [closing]
    exact .closing rfl (Execution.concludes_closing ..)
  | @close seat s s' m'' here phase performed =>
    obtain ⟨place, found, fixture, story⟩ := tells.story here
    have same := SameHouse.perform? performed
    refine tells.advance here found fixture (same.seats_setPhase ..) ?_ ?_
    · rw [bind_wrote?, Option.or_none]
      exact same.failure
    · rw [phase] at story
      rw [filter_wrote?, List.append_nil]
      generalize milestones log i = told at story
      cases story with
      | closing ending concludes =>
        rw [(Place.of_fixture fixture).2.1] at performed
        rcases (concludes.of_perform? performed).2 with ⟨further, -⟩ | ⟨-, further, -⟩
        · exact .closing ending further
        · exact .closing ending further
  | @conclude seat s verdict here phase ends =>
    obtain ⟨place, found, fixture, story⟩ := tells.story here
    refine tells.advance here found fixture (seats_recordVerdict ..) ?_ ?_
    · rw [(Place.of_fixture fixture).1]
      exact failure_recordVerdict found ..
    · rw [phase] at story
      generalize milestones log i = told at story
      cases story with
      | closing ending concludes => exact .ended ending (concludes.of_finish ends).2

/-- Whatever order the commands step in is told. -/
theorem of_schedule {world : World} {outlets : Outlets} {input : Bytes} {capacity : Nat}
    (schedule : Schedule act (l.begin world outlets input capacity) log m) : l.Tells log m := by
  induction schedule with
  | start => exact begin ..
  | step _ step ih => exact ih.move (move_of_step? step)
  | elsewhere _ _ ih => exact ⟨ih.failure, ih.nobody, ih.story⟩

/-! ### Which failures count -/

/-- A pipeline fails if there is a verdict of failure on one of its commands. -/
theorem failure_isSome_iff (tells : l.Tells log m) :
    m.failure.isSome ↔ ∃ i failure, (i, Deed.concluded (.error failure)) ∈ log := by
  rw [tells.failure, firstFailure?, List.findSome?_isSome_iff]
  constructor
  · rintro ⟨⟨i, deed⟩, member, counts⟩
    cases deed with
    | concluded verdict =>
      cases verdict with
      | error failure => exact ⟨i, failure, member⟩
      | ok _ => cases counts
    | wrote | ended | cutOff => cases counts
  · rintro ⟨i, failure, member⟩
    refine ⟨_, member, ?_⟩
    have told := mem_milestones.mpr ⟨member, rfl⟩
    cases here : m.seats[i]? with
    | none =>
      rw [tells.nobody here] at told
      cases told
    | some seat =>
      obtain ⟨place, found, -⟩ := tells.story here
      simp [failureOf?, found]

/-- The verdict on a command that failed, or was cut off, is its failure, unless that is a broken pipe
and another command follows. -/
theorem concluded_iff (tells : l.Tells log m) (still : m.running = []) {deed : Deed}
    {failure : Failure} (failed : (i, deed) ∈ log) (ending : deed.ending? = some (.error failure))
    (verdict : Verdict) : (i, Deed.concluded verdict) ∈ log ↔ verdict =
      if i < l.inner.length ∧ failure.isBrokenPipe then .ok () else .error failure := by
  have milestone : deed.isMilestone := by
    cases deed <;> first | rfl | cases ending
  have told := mem_milestones.mpr ⟨failed, milestone⟩
  have concluded : (i, Deed.concluded verdict) ∈ log ↔ Deed.concluded verdict ∈ milestones log i := by
    simp [mem_milestones, Deed.isMilestone]
  rw [concluded]
  cases here : m.seats[i]? with
  | none =>
    rw [tells.nobody here] at told
    cases told
  | some seat =>
    obtain ⟨place, found, -, story⟩ := tells.story here
    rw [phase_of_still still here] at story
    generalize milestones log i = deeds at story told
    cases story with
    | @ended deed' verdict' final ending' possible =>
      obtain rfl : deed = deed' := by
        simp only [List.mem_cons, List.not_mem_nil, or_false] at told
        rcases told with same | rfl
        · exact same
        · cases ending
      obtain rfl : Except.error failure = verdict' := Option.some.inj (ending.symm.trans ending')
      have decided : final =
          if i < l.inner.length ∧ failure.isBrokenPipe then .ok () else .error failure := by
        split
        · next forgiven =>
          obtain ⟨s, wiring⟩ := wiring_of_inner found forgiven.1
          exact (wiring ▸ possible).of_forgiven forgiven.2
        · next counts =>
          exact possible.of_not_forgiven fun both =>
            counts ⟨(out_eq_pipe_iff found).mp both.1, both.2⟩
      have other : Deed.concluded verdict ≠ deed := by
        rintro rfl
        cases ending
      rw [← decided]
      simp only [List.mem_cons, List.not_mem_nil, or_false, other, false_or, Deed.concluded.injEq]

end Tells

/-- In whatever order the commands of a pipeline step until all have ended, the pipeline fails if and
only if the verdict on one of them is a failure. The verdict on a command that failed is its failure,
unless that is a broken pipe and another command follows: then, whatever stream or store the command
has it from, the command counts as one that succeeded. -/
theorem failure_isSome_iff_of_schedule {act : σ → Action σ} {l : Lineup σ} {world : World}
    {outlets : Outlets} {input : Bytes} {capacity : Nat} {log : List (Nat × Deed)}
    {final : Ensemble σ}
    (schedule : Ensemble.Schedule act (l.begin world outlets input capacity) log final)
    (still : final.running = []) :
    (final.failure.isSome ↔ ∃ i failure, (i, Deed.concluded (.error failure)) ∈ log) ∧
    ∀ i failure, (i, Deed.ended (.error failure)) ∈ log → ∀ verdict,
      (i, Deed.concluded verdict) ∈ log ↔ verdict =
        if i < l.inner.length ∧ failure.isBrokenPipe then .ok () else .error failure :=
  have tells := Tells.of_schedule schedule
  ⟨tells.failure_isSome_iff, fun _ _ failed verdict => tells.concluded_iff still failed rfl verdict⟩

def listedIntoCat : Lineup (Script Verdict) where
  inner := [({ name := "ls" }, (Command.ls ["/d"]).toScript)]
  last := ({ name := "cat" }, (Command.cat []).toScript)
  prepared := ⟨[], none, none, [["/d"], []]⟩

def brokenStage : Stage where
  world := Trial.start
    { objects := [("/d", none)]
      faults := [⟨"list_dir", "/d", .stream ⟨.brokenPipe, "connection reset"⟩, none⟩] } {} none none
  outlets := .willing

/-- The failures that commands ended with in a log. -/
def failuresIn (log : List (Nat × Deed)) : List (Nat × Failure) :=
  log.filterMap fun (i, deed) =>
    match deed with
    | .ended (.error failure) => some (i, failure)
    | _ => none

/-- A failure in a log is the end of a command. -/
theorem ended_of_mem_failuresIn {log : List (Nat × Deed)} {i : Nat} {failure : Failure}
    (member : (i, failure) ∈ failuresIn log) : (i, Deed.ended (.error failure)) ∈ log := by
  obtain ⟨⟨j, deed⟩, member, told⟩ := List.mem_filterMap.mp member
  dsimp only at told
  split at told <;> cases told
  exact member

/-- The connection to the store breaks while `ls /d | cat` runs: `ls` fails with that, `cat` reads
nothing, and the pipeline succeeds. -/
theorem exists_forgiven : ∃ log final,
    Ensemble.Schedule Script.act
        (listedIntoCat.begin brokenStage.world brokenStage.outlets [] 65536) log final ∧
      final.running = [] ∧
      (0, Deed.ended (.error (.stream ⟨.brokenPipe, "connection reset"⟩))) ∈ log ∧
      (0, Deed.concluded (.ok ())) ∈ log ∧ final.failure = none := by
  have evaluated : (((listedIntoCat.begin brokenStage.world brokenStage.outlets [] 65536).inOrder?
      Script.act [] (List.replicate 13 0 ++ List.replicate 7 1)).map fun (log, final) =>
        (failuresIn log, final.running, final.failure)) =
      some ([(0, .stream ⟨.brokenPipe, "connection reset"⟩)], [], none) := by
    decide +kernel
  obtain ⟨⟨log, final⟩, steps, shown⟩ := Option.map_eq_some_iff.mp evaluated
  simp only [Prod.mk.injEq] at shown
  obtain ⟨failures, still, failure⟩ := shown
  have schedule := Ensemble.Schedule.start.inOrder? steps
  have failed : (0, Deed.ended (.error (.stream ⟨.brokenPipe, "connection reset"⟩))) ∈ log :=
    ended_of_mem_failuresIn (by rw [failures]; exact List.mem_singleton_self _)
  have forgiven := ((failure_isSome_iff_of_schedule schedule still).2 0 _ failed (.ok ())).mpr
    (if_pos (by decide)).symm
  exact ⟨log, final, schedule, still, failed, forgiven, failure⟩

end Lineup

end StoreShell
