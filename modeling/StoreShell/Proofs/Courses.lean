import StoreShell.Proofs.ConfinedScripts
import StoreShell.Proofs.CrewLines
import StoreShell.Proofs.Uploads

/-! # Courses

A course is a schedule on which nobody changes a certain file but what is done after the ends of
commands, and on which a command may be cut off at any moment once the line is cancelled, be it able
to go on or not. Commands that ask for nothing that changes the file spare it. If all commands of a
pipeline do, then what the shell makes of the pipeline is a course: of several commands because the
shell takes turns, and of a single one because running alone is stepping with listings that are
waited for at once and with streams that are read and written in one go, as `Script.soloAct` does
it.
-/

namespace StoreShell

variable {σ : Type} {act : σ → Action σ} {remote : Nat} {path : String}

namespace Ensemble

/-- Whether the command in a seat has not ended. -/
def InCommand (m : Ensemble σ) (i : Nat) : Prop :=
  ∃ seat s, m.seats[i]? = some seat ∧ seat.phase = .command s

/-- What the next step in a seat uploads to a file, if its command has ended. -/
def upload? (m : Ensemble σ) (remote : Nat) (path : String) (i : Nat) : Option Upload :=
  match m.seats[i]?.map Seat.phase with
  | some (.closing s) => s.upload? remote path m.world
  | _ => none

/-- Whatever commands that start in one way may come to, with the log of what they did and the
uploads to a file, while neither they nor anybody else changes the file: only what is done after the
ends of commands may. -/
inductive Course (act : σ → Action σ) (remote : Nat) (path : String) (m : Ensemble σ) :
    List (Nat × Deed) → List Upload → Ensemble σ → Prop where
  | start : Course act remote path m [] [] m
  | step {log sent m' i m''} : Course act remote path m log sent m' → m'.step? act i = some m'' →
      (m'.InCommand i → m''.world.contents? remote path = m'.world.contents? remote path) →
      Course act remote path m (log ++ (m'.deed? act i).toList.map (i, ·))
        (sent ++ (m'.upload? remote path i).toList) m''
  | cutOff {log sent m' i seat s} : Course act remote path m log sent m' → m'.world.cancelled →
      m'.seats[i]? = some seat → seat.phase = .command s →
      Course act remote path m (log ++ [(i, .cutOff)]) sent (m'.cutOff i seat)
  | elsewhere {log sent m'} (world : World) : Course act remote path m log sent m' →
      world.contents? remote path = m'.world.contents? remote path →
      Course act remote path m log sent { m' with world }

variable {m m' : Ensemble σ} {log : List (Nat × Deed)} {sent : List Upload} {i : Nat}

/-- Once a command has ended, the next step of its closing may upload. -/
theorem upload?_of_closing {seat : Seat σ} {s : Script Verdict} (here : m.seats[i]? = some seat)
    (phase : seat.phase = .closing s) :
    m.upload? remote path i = s.upload? remote path m.world := by
  rw [upload?, here, Option.map_some, phase]

/-- As long as a command goes on, its seat uploads nothing. -/
theorem upload?_of_command {seat : Seat σ} {s : σ} (here : m.seats[i]? = some seat)
    (phase : seat.phase = .command s) : m.upload? remote path i = none := by
  rw [upload?, here, Option.map_some, phase]

theorem Course.sameFrame (course : Course act remote path m log sent m') : m.SameFrame m' := by
  induction course with
  | start => exact ⟨rfl, rfl, rfl⟩
  | step _ step _ ih => exact ih.trans (move_of_step? step).sameFrame
  | cutOff _ _ _ _ ih => exact ih.trans (.setPhase ..)
  | elsewhere _ _ _ ih => exact ⟨ih.fixtures, ih.capacity, ih.pipes⟩

end Ensemble

/-! ### Scripts that spare a file -/

/-- Whether something that a script does leaves a file as it is. -/
def Script.Doing.Spares (remote : Nat) (path : String) : Script.Doing → Prop
  | .ask r => ∀ w : World, (w.answer r).2.contents? remote path = w.contents? remote path
  | _ => True

/-- Whether whatever a script asks for leaves a file as it is. -/
abbrev Script.Spares {α : Type} (remote : Nat) (path : String) (s : Script α) : Prop :=
  s.Confined (Doing.Spares remote path)

namespace Script.Spares

variable {s t : Script α} {w w' : World}

/-- A step of a script that spares a file leaves it as it is. -/
theorem step (spares : s.Spares remote path) (step : Step w s w' t) :
    t.Spares remote path ∧ w'.contents? remote path = w.contents? remote path := by
  cases spares with
  | done | hang => cases step
  | ask same further =>
    cases step
    exact ⟨further _, same w⟩
  | claim _ further =>
    cases step with
    | claim claimed => exact ⟨further _, (World.keepsStores_claim? claimed).contents?_eq ..⟩
  | @list l next _ further =>
    have kept := w.keepsStores_advance l
    cases step with
    | list goesOn =>
      rw [goesOn] at kept
      exact ⟨.list trivial further, kept.contents?_eq ..⟩
    | listed answered =>
      rw [answered] at kept
      exact ⟨further _, kept.contents?_eq ..⟩
  | write _ further =>
    cases step with
    | write => exact ⟨further _, rfl⟩
    | writeOn => exact ⟨.write trivial further, rfl⟩
  | copy _ further =>
    cases step with
    | copy => exact ⟨further _, rfl⟩
    | copyOn => exact ⟨.copy trivial further, rfl⟩
  | collect _ further =>
    cases step with
    | collect => exact ⟨further _, rfl⟩
    | collectOn => exact ⟨.collect trivial further, rfl⟩
  | flush _ further | saved _ further =>
    cases step
    exact ⟨further _, rfl⟩
  | release _ further =>
    cases step
    exact ⟨further, rfl⟩

end Script.Spares

/-! ### Several commands -/

namespace Ensemble

variable {m m' : Ensemble (Script Verdict)} {i : Nat}

/-- Whether all commands that have not ended spare a file. -/
def Sparing (remote : Nat) (path : String) (m : Ensemble (Script Verdict)) : Prop :=
  ∀ {i : Nat} {seat : Seat (Script Verdict)} {s : Script Verdict}, m.seats[i]? = some seat →
    seat.phase = .command s → s.Spares remote path

/-- A seat comes to another phase, in which its command spares the file if it has not ended. -/
theorem Sparing.advance (sparing : m.Sparing remote path) {phase : Phase (Script Verdict)}
    (seats : m'.seats = (m.setPhase i phase).seats)
    (own : ∀ s, phase = .command s → s.Spares remote path) : m'.Sparing remote path := by
  intro j seat s there command
  rw [seats] at there
  by_cases same : j = i
  · subst same
    rw [getElem?_setPhase_self] at there
    obtain ⟨_, _, rfl⟩ := Option.map_eq_some_iff.mp there
    exact own s command
  · rw [getElem?_setPhase_of_ne same] at there
    exact sparing there command

/-- A step of commands that spare a file leads to such commands, and if it is a step of a command
then the file is as it was. -/
theorem Sparing.step? (sparing : m.Sparing remote path)
    (step : m.step? Script.act i = some m') : m'.Sparing remote path ∧
      (m.InCommand i → m'.world.contents? remote path = m.world.contents? remote path) := by
  have move := move_of_step? step
  generalize m.deed? Script.act i = deed at move
  cases move with
  | finish here phase ends => exact ⟨sparing.advance rfl (by nofun), fun _ => rfl⟩
  | go here phase performed =>
    have same := SameHouse.perform? performed
    obtain ⟨further, kept⟩ := (sparing here phase).step (Script.step_of_perform? performed)
    refine ⟨sparing.advance (same.seats_setPhase ..) fun s command => ?_, fun _ => kept⟩
    cases command
    exact further
  | cutOff here phase waits cancelled => exact ⟨sparing.advance rfl (by nofun), fun _ => rfl⟩
  | close here phase performed =>
    have same := SameHouse.perform? performed
    refine ⟨sparing.advance (same.seats_setPhase ..) (by nofun), ?_⟩
    rintro ⟨seat, s, there, command⟩
    rw [here] at there
    cases there
    cases phase.symm.trans command
  | conclude here phase ends =>
    refine ⟨sparing.advance (seats_recordVerdict ..) (by nofun), fun _ => ?_⟩
    rw [world_recordVerdict]
    rfl

/-- Steps of commands that spare a file, in any order, are a course. -/
theorem Course.inOrder? {start : Ensemble (Script Verdict)} {log log' : List (Nat × Deed)}
    {sent : List Upload} {order : List Nat} (course : Course Script.act remote path start log sent m)
    (sparing : m.Sparing remote path)
    (steps : m.inOrder? Script.act log order = some (log', m')) :
    (∃ sent', Course Script.act remote path start log' sent' m') ∧ m'.Sparing remote path := by
  induction order generalizing log sent m with
  | nil =>
    cases steps
    exact ⟨⟨sent, course⟩, sparing⟩
  | cons i order ih =>
    rw [Ensemble.inOrder?] at steps
    split at steps
    · cases steps
    · next step =>
      obtain ⟨further, spares⟩ := sparing.step? step
      exact ih (course.step step spares) further steps

/-- The turns of the shell are a course if all commands spare the file. -/
theorem Drives.course {turns : Turns} {final : Ensemble (Script Verdict)}
    (drives : Drives Script.act turns m final) (sparing : m.Sparing remote path) :
    (∃ log sent, Course Script.act remote path m log sent final) ∧ final.running = [] := by
  suffices further : ∀ {start : Ensemble (Script Verdict)} {log : List (Nat × Deed)}
      {sent : List Upload}, Course Script.act remote path start log sent m → m.Sparing remote path →
      (∃ log sent, Course Script.act remote path start log sent final) ∧ final.running = [] from
    further .start sparing
  clear sparing
  induction drives with
  | stop _ still => exact fun course _ => ⟨⟨_, _, course⟩, still⟩
  | @turn _ _ m _ _ _ next _ ih =>
    intro start log sent course sparing
    have background : Course Script.act remote path start log sent m.runBackground :=
      .elsewhere _ course (m.world.keepsStores_runBackground.contents?_eq ..)
    rcases cases_of_turn? next with ⟨i, step⟩ | rfl | rfl | ⟨due, rfl⟩
    · obtain ⟨further, spares⟩ := sparing.step? step
      exact ih (course.step step spares) further
    · exact ih course sparing
    · exact ih background sparing
    · exact ih (.elsewhere _ background rfl) sparing

end Ensemble

/-! ### A single command -/

/-- What a script that runs alone does next, with the input that it has not read. -/
def Script.soloAct : Script Verdict × Bytes → Action (Script Verdict × Bytes)
  | (.done verdict, _) => .finish verdict
  | (.ask r next, input) => .effect none fun w =>
    let (a, w) := w.answer r
    some ((next a, input), w)
  | (.claim cache folder next, input) => .effect none fun w =>
    (w.awaitClaim cache folder).map fun (a, w) => ((next a, input), w)
  | (.list l next, input) => .effect none fun w =>
    let (a, w) := w.awaitListing l
    some ((next a, input), w)
  | (.write dest bytes next, input) =>
    if bytes.isEmpty then .pass (next (.ok ()), input)
    else .write dest bytes fun result => (next (result.map fun _ => ()), input)
  | (.flush dest next, input) => .flush dest fun result => (next result, input)
  | (.copy c next, input) =>
    .pass (.write .out (c.held ++ input) fun
      | .error e => next (.error e)
      | .ok _ => .flush .out next, [])
  | (.collect none sofar next, input) => .pass (next (sofar.push input).bytes, [])
  | (.collect (some room) sofar next, input) =>
    .pass (next (sofar.push (input.take room)).bytes, input.drop room)
  | (.saved which next, input) => .saved which fun bytes => (next bytes, input)
  | (.release next, input) => .release (next, input)
  | (.hang, _) => .effect none fun _ => none

namespace Execution

open Ensemble Script

/-- A job that runs alone, as the only command of an ensemble. -/
def Job.solo (j : Job) (phase : Phase (Script Verdict × Bytes)) (stage : Stage)
    (failure : Option Failure) : Ensemble (Script Verdict × Bytes) where
  world := stage.world
  outlets := stage.outlets
  input := []
  capacity := 0
  pipes := []
  seats := [⟨j.name, phase, j.wiring.sinks, closing j.wiring⟩]
  failure

variable {j : Job} {start : Ensemble (Script Verdict × Bytes)} {scene scene' : Scene}

/-- Whether a job that runs alone comes to a script in its surroundings on a course. -/
def Job.Comes (j : Job) (remote : Nat) (path : String)
    (start : Ensemble (Script Verdict × Bytes)) (s : Script Verdict) (scene : Scene) : Prop :=
  scene.sinks = j.wiring.sinks ∧ ∃ log sent, Course soloAct remote path start log sent
    (j.solo (.command (s, scene.input)) ⟨scene.world, scene.outlets⟩ none)

private theorem Job.Comes.go {s s' : Script Verdict}
    (comes : j.Comes remote path start s scene) (sinks : scene'.sinks = scene.sinks)
    (performed : (j.solo (.command (s, scene.input)) ⟨scene.world, scene.outlets⟩ none).perform? 0
      scene.sinks (soloAct (s, scene.input)) = some ((s', scene'.input),
        j.solo (.command (s, scene.input)) ⟨scene'.world, scene'.outlets⟩ none))
    (same : scene'.world.contents? remote path = scene.world.contents? remote path) :
    j.Comes remote path start s' scene' := by
  obtain ⟨own, log, sent, course⟩ := comes
  rw [own] at performed
  have goesOn : ∀ verdict, soloAct (s, scene.input) ≠ .finish verdict := by
    intro verdict ends
    rw [ends] at performed
    cases performed
  have here : (j.solo (.command (s, scene.input)) ⟨scene.world, scene.outlets⟩ none).seats[0]? =
    some ⟨j.name, .command (s, scene.input), j.wiring.sinks, closing j.wiring⟩ := rfl
  have step : (j.solo (.command (s, scene.input)) ⟨scene.world, scene.outlets⟩ none).step?
      soloAct 0 = some (j.solo (.command (s', scene'.input)) ⟨scene'.world, scene'.outlets⟩
        none) := by
    rw [step?_of_command here rfl goesOn]
    simp only [performed]
    rfl
  exact ⟨sinks.trans own, _, _, course.step step fun _ => same⟩

private theorem Job.Comes.write {dest : Output} {bytes : Bytes}
    {next : Except StreamError Unit → Script Verdict}
    (comes : j.Comes remote path start (.write dest bytes next) scene)
    (piped : scene.sinks.get dest ≠ .pipe) :
    j.Comes remote path start (next (scene.write dest bytes).1) (scene.write dest bytes).2 := by
  rw [Scene.write]
  split
  · next empty =>
    refine comes.go rfl ?_ rfl
    rw [soloAct, if_pos empty]
    rfl
  · next filled =>
    refine comes.go rfl ?_ rfl
    have whole : ∀ result : Except StreamError Unit,
        (result.map fun _ => bytes.length).map (fun _ => ()) = result := by
      intro result
      cases result <;> rfl
    rw [soloAct, if_neg filled, perform?, write?_of_ne_pipe _ _ piped, Option.map_some]
    simp only [whole]
    rfl

private theorem Job.Comes.copy {c : Copying} {next : Except StreamError Unit → Script Verdict}
    (comes : j.Comes remote path start (.copy c next) scene)
    (piped : scene.sinks.get .out ≠ .pipe) :
    j.Comes remote path start (next (scene.copy c).1) (scene.copy c).2 := by
  have pushed : j.Comes remote path start (.write .out (c.held ++ scene.input) fun
      | .error e => next (.error e)
      | .ok _ => .flush .out next) { scene with input := [] } := comes.go rfl rfl rfl
  have wrote := pushed.write piped
  rw [Scene.copy]
  generalize Scene.write { scene with input := [] } .out (c.held ++ scene.input) = written at wrote
  obtain ⟨result, after⟩ := written
  cases result with
  | error e => exact wrote
  | ok _ => exact wrote.go rfl rfl rfl

/-- A job goes on as its script does alone, up to the end of the script. -/
theorem Job.Comes.run? {s : Script Verdict} {verdict : Verdict}
    (piped : ∀ dest, j.wiring.sinks.get dest ≠ .pipe)
    (spares : s.Spares remote path) (ran : s.run? scene = some (verdict, scene'))
    (comes : j.Comes remote path start s scene) :
    j.Comes remote path start (.done verdict) scene' := by
  induction spares generalizing scene with
  | done =>
    cases ran
    exact comes
  | ask same _ ih => exact ih _ ran (comes.go rfl rfl (same _))
  | claim _ _ ih =>
    rw [Script.run?] at ran
    split at ran
    · cases ran
    · next children w claimed =>
      refine ih _ ran (comes.go rfl ?_ ((World.keepsStores_awaitClaim claimed).contents?_eq ..))
      simp only [soloAct, perform?, Job.solo, claimed, Option.map_some]
  | list _ _ ih =>
    exact ih _ ran (comes.go rfl rfl ((World.keepsStores_awaitListing ..).contents?_eq ..))
  | write _ _ ih => exact ih _ ran (comes.write (comes.1 ▸ piped _))
  | flush _ _ ih => exact ih _ ran (comes.go rfl rfl rfl)
  | copy _ _ ih => exact ih _ ran (comes.copy (comes.1 ▸ piped _))
  | @collect room sofar next _ _ ih =>
    cases room with
    | none => exact ih _ ran (comes.go rfl rfl rfl)
    | some room => exact ih _ ran (comes.go rfl rfl rfl)
  | saved _ _ ih => exact ih _ ran (comes.go rfl rfl rfl)
  | release _ _ ih =>
    refine ih ran (comes.go rfl ?_ rfl)
    have last : scene.sinks.out ≠ .pipe := comes.1 ▸ piped .out
    rw [soloAct, perform?, Ensemble.release, if_neg last]
  | hang => cases ran

/-- Whether what is done after the end of a job that runs alone comes to a script on a course. -/
def Job.Closes (j : Job) (remote : Nat) (path : String)
    (start : Ensemble (Script Verdict × Bytes)) (s : Script Verdict) (scene : Scene) : Prop :=
  scene.sinks = j.wiring.sinks ∧ ∃ log sent, Course soloAct remote path start log sent
    (j.solo (.closing s) ⟨scene.world, scene.outlets⟩ none)

private theorem Job.Closes.go {s s' : Script Verdict}
    (closes : j.Closes remote path start s scene) (sinks : scene'.sinks = scene.sinks)
    (performed : (j.solo (.closing s) ⟨scene.world, scene.outlets⟩ none).perform? 0 scene.sinks
      s.act = some (s', j.solo (.closing s) ⟨scene'.world, scene'.outlets⟩ none)) :
    j.Closes remote path start s' scene' := by
  obtain ⟨own, log, sent, course⟩ := closes
  rw [own] at performed
  have goesOn : ∀ verdict, s.act ≠ .finish verdict := by
    intro verdict ends
    rw [ends] at performed
    cases performed
  have here : (j.solo (.closing s) ⟨scene.world, scene.outlets⟩ none).seats[0]? =
    some ⟨j.name, .closing s, j.wiring.sinks, closing j.wiring⟩ := rfl
  have step : (j.solo (.closing s) ⟨scene.world, scene.outlets⟩ none).step? soloAct 0 =
      some (j.solo (.closing s') ⟨scene'.world, scene'.outlets⟩ none) := by
    rw [step?_of_closing here rfl goesOn]
    simp only [performed]
    rfl
  refine ⟨sinks.trans own, _, _, course.step step ?_⟩
  rintro ⟨seat, s, there, command⟩
  cases there
  cases command

/-- What is done after the end of a job goes on as it does alone. -/
theorem Job.Closes.run? {held : Bool} {P : Verdict → Prop} {s : Script Verdict}
    {verdict : Verdict} (piped : j.wiring.sinks.out ≠ .pipe)
    (concludes : Concludes j.wiring.sinks P held s) (ran : s.run? scene = some (verdict, scene'))
    (closes : j.Closes remote path start s scene) :
    j.Closes remote path start (.done verdict) scene' := by
  induction concludes generalizing scene with
  | done =>
    cases ran
    exact closes
  | ask _ ih | saved _ ih => exact ih _ ran (closes.go rfl rfl)
  | @flush _ dest next _ ih =>
    have same : scene.flush dest = scene.outlets.flush (j.wiring.sinks.get dest) := by
      rw [Scene.flush, closes.1]
    rw [Script.run?, same] at ran
    exact ih scene.outlets ran (same ▸ closes.go rfl rfl)
  | release _ ih =>
    refine ih ran (closes.go rfl ?_)
    have last : scene.sinks.out ≠ .pipe := closes.1 ▸ piped
    rw [act, perform?, Ensemble.release, if_neg last]

/-- What the shell makes of a single command that spares a file is the end of a course. -/
theorem exists_course_of_runAlone {s : Segment} {p : Prepared} {task : Task Unit} {input : Bytes}
    (spares : task.toScript.Spares remote path) {stage stage' : Stage} {verdict : Verdict}
    (ran : runAlone input ⟨s.name, task, lastWiring s p⟩ stage = some (verdict, stage')) :
    ∃ log sent final, Course soloAct remote path
        ((⟨[], (s, task.toScript, input), p⟩ : Lineup (Script Verdict × Bytes)).begin stage.world
          stage.outlets [] 0) log sent final ∧
      final.running = [] ∧ stage' = ⟨final.world, final.outlets⟩ ∧
      (verdict.isOk ↔ final.failure = none) := by
  obtain ⟨⟨_, scene'⟩, whole, same⟩ := Option.map_eq_some_iff.mp ran
  cases same
  rw [Script.run?_bind] at whole
  obtain ⟨⟨own, scene⟩, runs, closes⟩ := Option.bind_eq_some_iff.mp whole
  let j : Job := ⟨s.name, task, lastWiring s p⟩
  let start := (⟨[], (s, task.toScript, input), p⟩ : Lineup (Script Verdict × Bytes)).begin
    stage.world stage.outlets [] 0
  have begins : j.Comes remote path start task.toScript
      ⟨stage.world, stage.outlets, input, j.wiring.sinks⟩ := ⟨rfl, [], [], .start⟩
  obtain ⟨sinks, log, sent, course⟩ := begins.run? (get_sinks_lastWiring s p) spares runs
  have ends : (j.solo (.command (.done own, scene.input)) ⟨scene.world, scene.outlets⟩ none).step?
      soloAct 0 = some (j.solo (.closing (closing j.wiring own)) ⟨scene.world, scene.outlets⟩
        none) := rfl
  have ended : j.Closes remote path start (closing j.wiring own) scene :=
    ⟨sinks, _, _, course.step ends fun _ => rfl⟩
  obtain ⟨-, log, sent, course⟩ := ended.run? (get_sinks_lastWiring s p .out)
    (concludes_closing j.wiring own) closes
  have concludes : (j.solo (.closing (.done verdict)) ⟨scene'.world, scene'.outlets⟩ none).step?
      soloAct 0 = some (j.solo .ended ⟨scene'.world, scene'.outlets⟩
        (match verdict with | .ok _ => none | .error cause => some (.inSegment s.name cause))) := by
    cases verdict <;> rfl
  refine ⟨_, _, _, course.step concludes ?_, ?_, rfl, ?_⟩
  · rintro ⟨seat, s, there, command⟩
    cases there
    cases command
  · cases verdict <;> rfl
  · cases verdict <;> simp [Job.solo, Except.isOk, Except.toBool]

/-- What the shell makes of several commands that spare a file is the end of a course. -/
theorem exists_course_of_runTogether {l : Lineup (Script Verdict)} {input : Bytes}
    {js : List Job} (seats : js.map Job.seat = l.places.map Place.seat)
    (spares : ∀ j ∈ js, j.task.toScript.Spares remote path) {stage stage' : Stage}
    {verdict : Verdict} (ran : runTogether input js stage = some (verdict, stage')) :
    ∃ log sent final, Course Script.act remote path
        (l.begin stage.world stage.outlets input stage.world.settings.pipeCapacity) log sent final ∧
      final.running = [] ∧ stage' = ⟨final.world, final.outlets⟩ ∧
      (verdict.isOk ↔ final.failure = none) := by
  rw [runTogether_eq seats] at ran
  obtain ⟨final, ran, told⟩ := Option.map_eq_some_iff.mp ran
  have sparing : (l.begin stage.world stage.outlets input
      stage.world.settings.pipeCapacity).Sparing remote path := by
    intro i seat s here command
    rw [Lineup.begin, ← seats, List.getElem?_map] at here
    obtain ⟨j, found, rfl⟩ := Option.map_eq_some_iff.mp here
    cases command
    exact spares j (List.mem_of_getElem? found)
  obtain ⟨⟨log, sent, course⟩, still⟩ := (Ensemble.drive?_eq_some_iff.mp ran).course sparing
  refine ⟨log, sent, final, course, still, ?_⟩
  cases failed : final.failure <;> rw [failed] at told <;> cases told <;>
    exact ⟨rfl, by simp [Except.isOk, Except.toBool]⟩

end Execution

end StoreShell
