import StoreShell.Proofs.PipelineFailures

/-! # Failures of lines

The failure of a command reaches the caller. What is done once a command has ended, be it that its
output is flushed or that redirections are closed, fails a command only if that had not failed
itself, and the first verdict of failure stays the one on the pipeline. So a line fails with the
failure of the command that was the first to fail in the last pipeline that ran, if its streams can
be flushed. The streams of the caller are flushed at the end of the line, and a failure to do so
takes the place of any other.
-/

namespace StoreShell

/-! ### The first command to fail -/

namespace Lineup

variable {σ : Type} {l : Lineup σ} {log : List (Nat × Deed)} {m : Ensemble σ}

/-- The seat with the first verdict of failure in a log. -/
def firstToFail? (log : List (Nat × Deed)) : Option Nat :=
  log.findSome? fun (i, deed) =>
    match deed with
    | .concluded (.error _) => some i
    | _ => none

private theorem failureOf?_eq_none {i : Nat} {deed : Deed}
    (passes : (match deed with | .concluded (.error _) => some i | _ => none) = none) :
    l.failureOf? i deed = none := by
  cases deed with
  | concluded verdict =>
    cases verdict with
    | ok _ => rfl
    | error _ => cases passes
  | wrote | ended | cutOff => rfl

private theorem exists_concluded_of_firstToFail? {i : Nat} (first : firstToFail? log = some i)
    {place : Place σ} (found : l.places[i]? = some place) :
    ∃ cause, (i, Deed.concluded (.error cause)) ∈ log ∧
      l.firstFailure? log = some (.inSegment place.name cause) := by
  obtain ⟨before, ⟨j, told⟩, after, split, counts, passed⟩ := List.findSome?_eq_some_iff.mp first
  cases told with
  | concluded verdict =>
    cases verdict with
    | ok _ => cases counts
    | error cause =>
      obtain rfl := Option.some.inj counts
      have nothing : before.findSome? (fun (i, deed) => l.failureOf? i deed) = none :=
        List.findSome?_eq_none_iff.mpr fun _ member => failureOf?_eq_none (passed _ member)
      refine ⟨cause, by simp [split], ?_⟩
      rw [split, firstFailure?, List.findSome?_append, nothing, List.findSome?_cons]
      simp [failureOf?, found]
  | wrote | ended | cutOff => cases counts

/-- A pipeline fails with the failure of the first command to fail, under the name of that command,
whatever has failed since. -/
theorem Tells.failure_of_firstToFail? (tells : l.Tells log m) (still : m.running = []) {i : Nat}
    (first : firstToFail? log = some i) {place : Place σ} (found : l.places[i]? = some place)
    {deed : Deed} {failure : Failure} (failed : (i, deed) ∈ log)
    (ending : deed.ending? = some (.error failure)) :
    m.failure = some (.inSegment place.name failure) := by
  obtain ⟨cause, concluded, same⟩ := exists_concluded_of_firstToFail? first found
  have verdict := (tells.concluded_iff still failed ending (.error cause)).mp concluded
  split at verdict
  · cases verdict
  · cases verdict
    rw [tells.failure, same]

end Lineup

namespace Execution

open Ensemble (Schedule)

/-- Whether the only job fails because its command does, or of several jobs the first one to fail.
Any schedule to the end that the shell comes to tells which one that is. -/
inductive FirstFails (input : Bytes) (stage : Stage) : List Job → Failure → Prop where
  | alone {s p task failure scene} :
      task.toScript.run? ⟨stage.world, stage.outlets, input, (lastWiring s p).sinks⟩ =
        some (.error failure, scene) →
      FirstFails input stage [⟨s.name, task, lastWiring s p⟩] failure
  | together {js : List Job} {l : Lineup (Script Verdict)} {log final i deed failure} {j : Job} :
      js.length ≠ 1 → js.map Job.seat = l.places.map Place.seat →
      (l.begin stage.world stage.outlets input stage.world.settings.pipeCapacity).run? Script.act =
        some final →
      Schedule Script.act
        (l.begin stage.world stage.outlets input stage.world.settings.pipeCapacity) log final →
      Lineup.firstToFail? log = some i → (i, deed) ∈ log → deed.ending? = some (.error failure) →
      js[i]? = some j → FirstFails input stage js (.inSegment j.name failure)

/-- Whether the commands of a pipeline come to run and one of them is the first to fail. -/
def CommandFails (r : Registry) (p : Pipeline) (stage : Stage) (failure : Failure) : Prop :=
  ∃ commands prepared ready, lookUp r p.segments = .ok commands ∧
    runTask (Prepared.ofPipeline p) stage = some (.ok prepared, ready) ∧
    FirstFails prepared.input (forgetSaved ready) (jobs prepared p.segments commands prepared.args)
      failure

variable {r : Registry} {p : Pipeline} {stage stage' : Stage} {failure : Failure}
  {verdict : Verdict}

/-- A command that no other one follows keeps its failure, whatever fails once it has ended. -/
theorem run?_closing {w : Wiring} (last : w.sinks.out ≠ .pipe) {scene scene' : Scene}
    (ran : (closing w (.error failure)).run? scene = some (verdict, scene')) :
    verdict = .error failure := by
  have own : forgiveBrokenPipe (w.sinks.out = .pipe) (.error failure) = .error failure := by
    simp [forgiveBrokenPipe, last]
  rw [closing, own] at ran
  simp only [Script.run?] at ran
  split at ran
  · next cancelled =>
    cases ran
    exact cancelled.symm
  · obtain ⟨⟨later, scene''⟩, -, ends⟩ := Option.bind_eq_some_iff.mp
      ((Script.run?_bind ..).symm.trans ran)
    cases ends
    rfl

/-- Jobs fail with the failure of the first command to fail. -/
theorem runJobs_of_firstFails {input : Bytes} {js : List Job}
    (fails : FirstFails input (forgetSaved stage) js failure)
    (ran : runJobs input js stage = some (verdict, stage')) : verdict = .error failure := by
  cases fails with
  | @alone s p task failure scene fails =>
    obtain ⟨⟨_, scene'⟩, whole, same⟩ := Option.map_eq_some_iff.mp ran
    cases same
    rw [Script.run?_bind, fails] at whole
    exact run?_closing (get_sinks_lastWiring s p .out) whole
  | @together _ l log final i deed failure j several seats ends schedule first failed ending here =>
    have several : runJobs input js stage = runTogether input js (forgetSaved stage) := by
      rw [runJobs.eq_def]
      split
      · exact absurd rfl several
      · rfl
    rw [several, runTogether_eq seats, ends] at ran
    obtain ⟨-, still⟩ := (Ensemble.drive?_eq_some_iff.mp ends).schedule
    have place := congrArg (·[i]?) seats
    simp only [List.getElem?_map, here, Option.map_some] at place
    obtain ⟨place, found, same⟩ := Option.map_eq_some_iff.mp place.symm
    have name : place.name = j.name := congrArg Seat.name same
    cases ran
    rw [(Lineup.Tells.of_schedule schedule).failure_of_firstToFail? still first found failed ending,
      name]

/-- A pipeline fails with the failure of the first of its commands to fail, whatever else fails. -/
theorem runPipeline_of_commandFails (fails : CommandFails r p stage failure)
    (ran : runPipeline r p stage = some (verdict, stage')) : verdict = .error failure := by
  obtain ⟨commands, prepared, ready, known, prepares, fails⟩ := fails
  have nonempty : p.segments.isEmpty = false := by
    cases segments : p.segments with
    | cons => rfl
    | nil =>
      rw [segments, jobs.eq_def] at fails
      cases fails with
      | together _ _ _ _ _ _ _ here => cases here
  have runs : runPipeline r p stage =
      runJobs prepared.input (jobs prepared p.segments commands prepared.args) ready := by
    rw [runPipeline, nonempty, known]
    change (runTask (Prepared.ofPipeline p) stage).bind _ = _
    rw [prepares]
    rfl
  rw [runs] at ran
  exact runJobs_of_firstFails fails ran

/-! ### The last pipeline to run -/

/-- Runs a pipeline, and notes it with the stage in front of it. -/
def noting (run : Pipeline → OnStage Verdict) (p : Pipeline) :
    StateT (Option (Pipeline × Stage)) OnStage Verdict := fun _ stage =>
  (run p stage).map fun (verdict, stage') => ((verdict, some (p, stage)), stage')

/-- The last pipeline of a chain that runs with the stage in front of it, if any runs, and the stage
behind the chain. -/
def lastRun? (r : Registry) (c : Chain) (stage : Stage) :
    Option (Option (Pipeline × Stage) × Stage) :=
  (runChain (do return (← getThe Stage).world.cancelled) (noting (runPipeline r)) c none stage).map
    fun ((_, last), stage') => (last, stage')

variable {c : Chain} {run : Pipeline → OnStage Verdict}

/-- Links run as they do if nothing is noted, and the last pipeline to run decides unless the line
is cancelled. -/
theorem runLinks_noting {links : List Link} {sofar : Verdict} {gate : Connector}
    {last last' : Option (Pipeline × Stage)}
    (own : ∀ p before, last = some (p, before) → run p before = some (sofar, stage))
    (ran : runLinks (do return (← getThe Stage).world.cancelled) (noting run) sofar gate links last
      stage = some ((verdict, last'), stage')) :
    runLinks (do return (← get).world.cancelled) run sofar gate links stage =
        some (verdict, stage') ∧
      ∀ p before, last' = some (p, before) → ∃ decided, run p before = some (decided, stage') ∧
        (verdict = decided ∨ stage'.world.cancelled ∧ verdict = .error .cancelled) := by
  induction links generalizing sofar gate last stage with
  | nil =>
    cases ran
    exact ⟨rfl, fun p before here => ⟨_, own p before here, Or.inl rfl⟩⟩
  | cons link rest ih =>
    rw [runLinks] at ran ⊢
    split at ran
    · next allowed =>
      rw [if_pos allowed]
      change (if stage.world.cancelled then pure (.error .cancelled) else _ :
        StateT (Option (Pipeline × Stage)) OnStage Verdict) last stage = _ at ran
      change (if stage.world.cancelled then pure (.error .cancelled) else _ :
        OnStage Verdict) stage = _ ∧ _
      split at ran
      · next cancelled =>
        rw [if_pos cancelled]
        cases ran
        exact ⟨rfl, fun p before here => ⟨_, own p before here, Or.inr ⟨cancelled, rfl⟩⟩⟩
      · next live =>
        rw [if_neg live]
        obtain ⟨⟨⟨decided, _⟩, behind⟩, noted, further⟩ := Option.bind_eq_some_iff.mp ran
        obtain ⟨⟨_, _⟩, runs, same⟩ := Option.map_eq_some_iff.mp noted
        cases same
        obtain ⟨whole, ends⟩ := ih (fun p before here => by cases here; exact runs) further
        refine ⟨?_, ends⟩
        exact Option.bind_eq_some_iff.mpr ⟨_, runs, whole⟩
    · next forbidden =>
      rw [if_neg forbidden]
      exact ih own ran

def failsAlone : Pipeline := ⟨[{ name := "false" }]⟩

def unflushedStage : Stage where
  world := Trial.start {} {} none none
  outlets := .withRefusals (.flushes .other) .nothing

private theorem eq_ok_of_toOption {ε α : Type} {result : Except ε α} {a : α}
    (succeeded : result.toOption = some a) : result = .ok a := by
  cases result with
  | error e => cases succeeded
  | ok b => exact congrArg Except.ok (Option.some.inj succeeded)

private theorem ofLine_failsAlone : Chain.ofLine "false" = .ok ⟨[⟨failsAlone, .last⟩]⟩ :=
  eq_ok_of_toOption (by decide +kernel)

private theorem commandFails_failsAlone :
    CommandFails .standard failsAlone unflushedStage (.exitStatus 1) := by
  have known : lookUp .standard failsAlone.segments = .ok [Command.fail] := by
    simp [lookUp, failsAlone, Registry.get?, Registry.standard, Registry.insertMany,
      Std.TreeMap.getElem_insert, Except.map]
  have evaluated : ((runTask (Prepared.ofPipeline failsAlone) unflushedStage).bind fun ran =>
      ran.1.toOption.map Prepared.args) = some [[]] := by
    decide +kernel
  obtain ⟨⟨result, ready⟩, prepares, evaluated⟩ := Option.bind_eq_some_iff.mp evaluated
  obtain ⟨prepared, succeeded, args⟩ := Option.map_eq_some_iff.mp evaluated
  obtain rfl := eq_ok_of_toOption succeeded
  refine ⟨[Command.fail], prepared, ready, known, prepares, ?_⟩
  rw [args]
  exact .alone rfl

/-- The only pipeline of a chain is the last one to run. -/
theorem lastRun?_singleton (live : stage.world.cancelled = false)
    (ran : runPipeline r p stage = some (verdict, stage')) :
    lastRun? r ⟨[⟨p, .last⟩]⟩ stage = some (some (p, stage), stage') := by
  have noted : noting (runPipeline r) p none stage = some ((verdict, some (p, stage)), stage') := by
    rw [noting, ran]
    rfl
  change Option.map _ ((if stage.world.cancelled then pure (.error .cancelled) else _ :
    StateT (Option (Pipeline × Stage)) OnStage Verdict) none stage) = _
  rw [live]
  change Option.map _ (Option.bind (noting (runPipeline r) p none stage) _) = _
  rw [noted]
  rfl

/-- If a command of the last pipeline that runs is the first one there to fail, then the line fails
with its failure, whatever fails when outputs are flushed and redirections are closed. That does not
hold of the streams of the caller at the end of the line: a failure to flush these takes its place.
So does the cancellation of the line if another pipeline was to run. -/
theorem runLine_of_commandFails {r : Registry} {line : String} {c : Chain} {p : Pipeline}
    {stage before stage' : Stage} {failure : Failure} (read : Chain.ofLine line = .ok c)
    (last : lastRun? r c stage = some (some (p, before), stage'))
    (fails : CommandFails r p before failure) :
    runLine r line stage = some (flushCallers stage'.outlets (.error failure), stage') ∨
      stage'.world.cancelled ∧
        runLine r line stage = some (flushCallers stage'.outlets (.error .cancelled), stage') := by
  obtain ⟨⟨⟨verdict, _⟩, _⟩, ran, same⟩ := Option.map_eq_some_iff.mp last
  cases same
  obtain ⟨whole, decides⟩ := runLinks_noting (fun _ _ nothing => by cases nothing) ran
  obtain ⟨decided, runs, outcome⟩ := decides p before rfl
  obtain rfl := runPipeline_of_commandFails fails runs
  have flushed : runLine r line stage = some (flushCallers stage'.outlets verdict, stage') := by
    rw [runLine, read]
    exact Option.bind_eq_some_iff.mpr ⟨_, whole, rfl⟩
  rcases outcome with rfl | ⟨cancelled, rfl⟩
  · exact Or.inl flushed
  · exact Or.inr ⟨cancelled, flushed⟩

/-- Although `false` fails by itself, what its line fails with is that the output of the caller
cannot be flushed. -/
theorem runLine_failsAlone : CommandFails .standard failsAlone unflushedStage (.exitStatus 1) ∧
    ∃ stage', runLine .standard "false" unflushedStage =
      some (.error (.stream ⟨.other, "stdout flush failed"⟩), stage') := by
  have evaluated : ((runPipeline .standard failsAlone unflushedStage).map fun (_, stage') =>
      (stage'.world.cancelled, stage'.outlets.callers.out.name,
        stage'.outlets.callers.out.refuses)) = some (false, "stdout", .flushes .other) := by
    decide +kernel
  obtain ⟨⟨verdict, stage'⟩, ran, shown⟩ := Option.map_eq_some_iff.mp evaluated
  simp only [Prod.mk.injEq] at shown
  obtain ⟨live, name, refuses⟩ := shown
  have flushed : stage'.outlets.callers.out.flush = .error ⟨.other, "stdout flush failed"⟩ := by
    rw [CallerStream.flush, refuses, name]
    rfl
  have last := lastRun?_singleton rfl ran
  refine ⟨commandFails_failsAlone, stage', ?_⟩
  rcases runLine_of_commandFails ofLine_failsAlone last commandFails_failsAlone with
    line | ⟨cancelled, -⟩
  · rw [line, flushCallers, flushed]
  · rw [live] at cancelled
    cases cancelled

end Execution

end StoreShell
