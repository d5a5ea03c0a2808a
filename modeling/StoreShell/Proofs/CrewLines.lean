import StoreShell.Proofs.CrewScripts
import StoreShell.Proofs.EnsembleRuns

/-! # Crews follow lines

The commands of a pipeline that run together are pieces of work of a crew, in the order of their
seats, and a line that is run is a run of a crew: what holds of all runs of crews holds whenever a
shell runs a line.
-/

namespace StoreShell

open Execution

/-! ### Actions -/

namespace Script

/-- What copying does next is to copy on or to end. -/
theorem step_of_copyAction {c : Copying} {next : Except StreamError Unit → Script Verdict}
    {t : Script Verdict} (w : World) (gives : Ensemble.Gives (copyAction c next) t) :
    Step w (.copy c next) w t := by
  rw [copyAction] at gives
  cases phase : c.phase with
  | fill =>
    rw [phase] at gives
    dsimp only at gives
    split at gives <;> cases gives <;> exact .copyOn _
  | push =>
    rw [phase] at gives
    dsimp only at gives
    split at gives
    · cases gives with
      | tryWrite r =>
        cases r with
        | error e => exact .copy _
        | ok n => exact .copyOn _
      | full => exact .copyOn _
    · cases gives
      exact .copyOn _
  | topUp =>
    rw [phase] at gives
    cases gives <;> exact .copyOn _
  | idle =>
    rw [phase] at gives
    cases gives with
    | flush r =>
      cases r with
      | error e => exact .copy _
      | ok _ => exact .copyOn _
  | finish =>
    rw [phase] at gives
    cases gives
    exact .copy _
  | wait forInput =>
    rw [phase] at gives
    cases gives
    exact .copyOn _

private theorem step_of_gives {s t : Script Verdict} (w : World) (gives : Ensemble.Gives s.act t) :
    Step w s w t := by
  cases s with
  | done verdict | ask request next | claim cache folder next | list l next | hang => cases gives
  | write dest bytes next =>
    rw [act] at gives
    split at gives
    · cases gives
      exact .write _
    · cases gives with
      | write result =>
        cases result with
        | error e => exact .write _
        | ok n => exact .writeOn _
  | flush dest next =>
    cases gives
    exact .flush _
  | copy c next => exact step_of_copyAction w gives
  | collect room sofar next =>
    rw [act] at gives
    split at gives
    · cases gives
      exact .collect _
    · cases gives with
      | read bytes =>
        dsimp only
        split
        · exact .collect _
        · exact .collectOn _ _
  | saved which next =>
    cases gives
    exact .saved _
  | release next =>
    cases gives
    exact .release

private theorem step_of_effect {s t : Script Verdict} {w w' : World} {due : Option Nat}
    {run : World → Option (Script Verdict × World)} (action : s.act = .effect due run)
    (ran : run w = some (t, w')) : Step w s w' t := by
  cases s with
  | done verdict | flush dest next | saved which next | release next => cases action
  | hang =>
    cases action
    cases ran
  | write dest bytes next | collect room sofar next =>
    rw [act] at action
    split at action <;> cases action
  | copy c next =>
    rw [act, copyAction] at action
    split at action
    · split at action <;> cases action
    · split at action <;> cases action
    all_goals cases action
  | ask request next =>
    cases action
    cases ran
    exact .ask
  | claim cache folder next =>
    cases action
    obtain ⟨⟨children, v⟩, claimed, same⟩ := Option.map_eq_some_iff.mp ran
    cases same
    exact .claim claimed
  | list l next =>
    cases action
    dsimp only at ran
    split at ran
    · cases ran
    · split at ran
      · next goesOn =>
        cases ran
        exact .list goesOn
      · next answered =>
        cases ran
        exact .listed answered

/-- What a running command does next is a step of its script. -/
theorem step_of_perform? {σ : Type} {m m' : Ensemble σ} {i : Nat} {sinks : PerOutput Sink}
    {s t : Script Verdict} (performed : m.perform? i sinks s.act = some (t, m')) :
    Step m.world s m'.world t := by
  rcases Ensemble.of_perform? performed with ⟨gives, same⟩ | ⟨due, run, world, action, ran, rfl⟩
  · rw [same.world]
    exact step_of_gives _ gives
  · exact step_of_effect action ran

/-- A step of a script is one of the same script with something behind it. -/
theorem Step.bind {α β : Type} {w w' : World} {s t : Script α} (step : Step w s w' t)
    (then_ : α → Script β) : Step w (s.bind then_) w' (t.bind then_) := by
  cases step with
  | ask => exact .ask
  | claim claimed => exact .claim claimed
  | list goesOn => exact .list goesOn
  | listed answered => exact .listed answered
  | write a => exact .write a
  | writeOn left => exact .writeOn left
  | flush a => exact .flush a
  | copy a => exact .copy a
  | copyOn further => exact .copyOn further
  | collect a => exact .collect a
  | collectOn left further => exact .collectOn left further
  | saved a => exact .saved a
  | release => exact .release

/-- A command that neither has ended nor can go on may be found waiting. -/
theorem mayWait_of_perform? {σ β : Type} {m : Ensemble σ} {i : Nat} {sinks : PerOutput Sink}
    {s : Script Verdict} (going : ∀ verdict, s.act ≠ .finish verdict)
    (stuck : m.perform? i sinks s.act = none) (then_ : Verdict → Script β) :
    (s.bind then_).mayWait := by
  cases s with
  | done verdict => exact absurd rfl (going verdict)
  | ask request next | flush dest next | saved which next | release next => cases stuck
  | claim | write | copy | collect | hang => rfl
  | list l next =>
    rw [act, Ensemble.perform?, Option.map_eq_none_iff] at stuck
    split at stuck
    · next waits => exact Option.isSome_of_any waits
    · split at stuck <;> cases stuck

theorem eq_done_of_act {s : Script Verdict} {verdict : Verdict} (ends : s.act = .finish verdict) :
    s = .done verdict := by
  cases s with
  | done verdict =>
    cases ends
    rfl
  | ask request next | claim cache folder next | list l next | flush dest next | saved which next
  | release next | hang => cases ends
  | write dest bytes next | collect room sofar next =>
    rw [act] at ends
    split at ends <;> cases ends
  | copy c next =>
    rw [act, copyAction] at ends
    split at ends
    · split at ends <;> cases ends
    · split at ends <;> cases ends
    all_goals cases ends

end Script

/-! ### Ensembles -/

def Seat.work? (seat : Seat (Script Verdict)) : Option Work :=
  match seat.phase with
  | .command s => some (.of true s)
  | .closing s => some (.of false s)
  | .ended => none

namespace Ensemble

variable {r : Registry} {m m' : Ensemble (Script Verdict)} {i : Nat}

/-- The crew of an ensemble, beside other pieces of work. -/
def crew (m : Ensemble (Script Verdict)) (works : List Work) : Crew :=
  ⟨m.world, m.seats.filterMap Seat.work? ++ works⟩

/-- Whether what is done once a command has ended is the closing of its redirections. -/
def Closes (m : Ensemble (Script Verdict)) : Prop :=
  ∀ seat ∈ m.seats, ∃ wiring, seat.closing = closing wiring

/-- Whatever phase a seat comes to, its closing stays that of its redirections. -/
theorem Closes.setPhase (closes : m.Closes) (same : m'.seats = m.seats) (i : Nat)
    (phase : Phase (Script Verdict)) : (m'.setPhase i phase).Closes := by
  intro seat member
  rw [Ensemble.setPhase, same] at member
  obtain ⟨j, inside, rfl⟩ := List.getElem_of_mem member
  rw [List.getElem_modify]
  rw [List.length_modify] at inside
  obtain ⟨wiring, closed⟩ := closes m.seats[j] (List.getElem_mem inside)
  split <;> exact ⟨wiring, closed⟩

private theorem exists_place {seat : Seat (Script Verdict)} (here : m.seats[i]? = some seat)
    (works : List Work) : ∃ before after,
      m.crew works = ⟨m.world, before ++ (seat.work?.toList ++ after)⟩ ∧
        ∀ m' : Ensemble (Script Verdict), m'.seats = m.seats → ∀ phase,
          (m'.setPhase i phase).crew works =
            ⟨m'.world, before ++ ((Seat.work? { seat with phase }).toList ++ after)⟩ := by
  obtain ⟨inside, rfl⟩ := List.getElem?_eq_some_iff.mp here
  have one : ∀ (x : Seat (Script Verdict)) rest,
      (x :: rest).filterMap Seat.work? = x.work?.toList ++ rest.filterMap Seat.work? := by
    intro x rest
    rw [List.filterMap_cons]
    cases x.work? <;> rfl
  refine ⟨(m.seats.take i).filterMap Seat.work?,
    (m.seats.drop (i + 1)).filterMap Seat.work? ++ works, ?_, fun m' same phase => ?_⟩
  · have whole := (List.take_append_drop i m.seats).symm
    rw [List.drop_eq_getElem_cons inside] at whole
    have places := congrArg (·.filterMap Seat.work? ++ works) whole
    rw [List.filterMap_append, one, List.append_assoc, List.append_assoc] at places
    rw [crew, places]
  · rw [crew, Ensemble.setPhase, same, List.modify_eq_take_cons_drop inside, List.filterMap_append,
      one, List.append_assoc, List.append_assoc]

/-- One step of a seat is one of the crew, or its command ends or is dropped and its closing begins. -/
theorem run_step? (closes : m.Closes) (stepped : m.step? Script.act i = some m')
    (works : List Work) :
    m'.Closes ∧ ∃ dropped, Crew.Run r (m.crew works) dropped (m'.crew works) := by
  cases here : m.seats[i]? with
  | none =>
    rw [step?, here] at stepped
    cases stepped
  | some seat =>
    obtain ⟨before, after, whole, changed⟩ := exists_place here works
    obtain ⟨wiring, closed⟩ := closes seat (List.mem_of_getElem? here)
    have closingBegins : ∀ verdict, Crew.Step r ⟨m.world, before ++ after⟩ []
        ((m.setPhase i (.closing (seat.closing verdict))).crew works) := by
      intro verdict
      rw [changed m rfl, closed]
      exact .begin (.closing wiring verdict)
    cases phase : seat.phase with
    | ended =>
      rw [step?_of_ended here phase] at stepped
      cases stepped
    | command s =>
      simp only [Seat.work?, phase] at whole
      by_cases ended : ∃ verdict, s.act = .finish verdict
      · obtain ⟨verdict, ends⟩ := ended
        rw [step?_of_finish here phase ends] at stepped
        cases stepped
        refine ⟨closes.setPhase rfl i _, [], ?_⟩
        rw [whole, Script.eq_done_of_act ends]
        exact Crew.Step.finish.run.andThen (closingBegins verdict).run
      · have going : ∀ verdict, s.act ≠ .finish verdict := fun verdict ends => ended ⟨verdict, ends⟩
        rw [step?_of_command here phase going] at stepped
        split at stepped
        · next t m₁ performed =>
          cases stepped
          refine ⟨closes.setPhase (seats_of_perform? performed) i _, [], ?_⟩
          rw [whole, changed m₁ (seats_of_perform? performed)]
          exact (Crew.Step.go ((Script.step_of_perform? performed).bind _)).run
        · next stuck =>
          split at stepped
          · cases stepped
            refine ⟨closes.setPhase rfl i _, [s.bind fun _ => .done ()] ++ [], ?_⟩
            rw [whole]
            exact .step (Crew.Step.drop (Script.mayWait_of_perform? going stuck _)).run
              (closingBegins _)
          · cases stepped
    | closing s =>
      simp only [Seat.work?, phase] at whole
      by_cases ended : ∃ verdict, s.act = .finish verdict
      · obtain ⟨verdict, ends⟩ := ended
        rw [step?_of_finish_closing here phase ends] at stepped
        cases stepped
        have kept : ((m.setPhase i .ended).recordVerdict seat.name verdict).seats =
            (m.setPhase i .ended).seats := seats_recordVerdict _ _ _
        refine ⟨fun x member => closes.setPhase rfl i _ x (kept ▸ member), [], ?_⟩
        have same := changed m rfl .ended
        rw [crew] at same
        rw [whole, crew, kept, world_recordVerdict, same, Script.eq_done_of_act ends]
        exact Crew.Step.finish.run
      · have going : ∀ verdict, s.act ≠ .finish verdict := fun verdict ends => ended ⟨verdict, ends⟩
        rw [step?_of_closing here phase going] at stepped
        obtain ⟨⟨t, m₁⟩, performed, same⟩ := Option.map_eq_some_iff.mp stepped
        cases same
        refine ⟨closes.setPhase (seats_of_perform? performed) i _, [], ?_⟩
        rw [whole, changed m₁ (seats_of_perform? performed)]
        exact (Crew.Step.go ((Script.step_of_perform? performed).bind _)).run

/-- A turn is a run of the crew. -/
theorem run_turn? {turns turns' : Turns} (closes : m.Closes)
    (turn : m.turn? Script.act turns = some (turns', m')) (works : List Work) :
    m'.Closes ∧ ∃ dropped, Crew.Run r (m.crew works) dropped (m'.crew works) := by
  have background : Crew.Run r (m.crew works) [] (m.runBackground.crew works) :=
    Crew.run_runBackground _ _
  rw [turn?] at turn
  split at turn
  · dsimp only at turn
    split at turn
    · cases turn
      exact ⟨closes, [], background⟩
    · obtain ⟨due, -, same⟩ := Option.map_eq_some_iff.mp turn
      cases same
      exact ⟨closes, [], background.andThen (Crew.run_clock _ _ _)⟩
  · next i waiting _ =>
    split at turn
    · next m₁ stepped =>
      dsimp only at turn
      have step := run_step? (r := r) closes stepped works
      split at turn
      · cases turn
        exact step
      · cases turn
        exact step
    · dsimp only at turn
      split at turn
      · cases turn
        exact ⟨closes, [], background⟩
      · cases turn
        exact ⟨closes, [], .refl⟩

/-- All turns to the end are a run of the crew, and no piece of work is left then. -/
theorem run_drives {turns : Turns} {final : Ensemble (Script Verdict)}
    (drives : Drives Script.act turns m final) (closes : m.Closes) (works : List Work) :
    ∃ dropped, Crew.Run r (m.crew works) dropped ⟨final.world, works⟩ := by
  induction drives with
  | @stop _ m _ still =>
    have nobody : m.seats.filterMap Seat.work? = [] := by
      rw [List.filterMap_eq_nil_iff]
      intro seat member
      obtain ⟨i, here⟩ := List.getElem?_of_mem member
      cases phase : seat.phase with
      | ended => simp only [Seat.work?, phase]
      | command s | closing s =>
        have running : i ∈ m.running := mem_running.mpr ⟨seat, here, by simp [Seat.isEnded, phase]⟩
        rw [still] at running
        cases running
    refine ⟨[], ?_⟩
    rw [crew, nobody, List.nil_append]
    exact .refl
  | turn _ turn _ ih =>
    obtain ⟨closes, dropped, run⟩ := run_turn? closes turn works
    obtain ⟨more, rest⟩ := ih closes
    exact ⟨dropped ++ more, run.trans rest⟩

end Ensemble

/-! ### Lines -/

section Lines

variable {r : Registry}

/-- Whether what is done with a stage is a run of a crew, beside other pieces of work. -/
def Crewed {α : Type} (r : Registry) (act : OnStage α) : Prop :=
  ∀ stage stage' a, act stage = some (a, stage') → ∀ works,
    ∃ dropped, Crew.Run r ⟨stage.world, works⟩ dropped ⟨stage'.world, works⟩

variable {α β : Type}

theorem crewed_pure (a : α) : Crewed r (pure a : OnStage α) := by
  intro stage stage' a ran works
  cases ran
  exact ⟨[], .refl⟩

/-- What is done on a stage in two parts is a run of the crew in two parts. -/
theorem Crewed.andThen {act : OnStage α} {f : α → OnStage β} (first : Crewed r act)
    (next : ∀ a, Crewed r (f a)) : Crewed r (act >>= f) := by
  intro stage stage' b ran works
  obtain ⟨⟨a, between⟩, one, other⟩ := Option.bind_eq_some_iff.mp ran
  obtain ⟨dropped, run⟩ := first _ _ _ one works
  obtain ⟨more, rest⟩ := next a _ _ _ other works
  exact ⟨dropped ++ more, run.trans rest⟩

/-- Whether the task of a job is that of a command of a registry. -/
def Execution.Job.Known (r : Registry) (j : Job) : Prop :=
  ∃ name command args, r.get? name = some command ∧ j.task = command args

/-- The task of a known job may begin as a piece of work. -/
theorem Execution.Job.Known.begins {j : Job} (known : j.Known r) (w : World) :
    (Work.of true j.task.toScript).Begins r w := by
  obtain ⟨name, command, args, found, task⟩ := known
  rw [task]
  exact .command args found

theorem crewed_runAlone (input : Bytes) {j : Job} (known : j.Known r) :
    Crewed r (runAlone input j) := by
  intro stage stage' verdict ran works
  obtain ⟨⟨_, final⟩, ends, same⟩ := Option.map_eq_some_iff.mp ran
  cases same
  rw [Script.run?_bind] at ends
  obtain ⟨⟨ended, between⟩, one, other⟩ := Option.bind_eq_some_iff.mp ends
  have first : Crew.Run r ⟨stage.world, works⟩ [] ⟨between.world, works⟩ :=
    Crew.run_alone (known.begins _) one
  have next : Crew.Run r ⟨between.world, works⟩ [] ⟨final.world, works⟩ :=
    Crew.run_alone (.closing j.wiring ended) other
  exact ⟨[], first.andThen next⟩

/-- The commands of jobs begin. -/
theorem run_begin {js : List Job} (known : ∀ j ∈ js, j.Known r) (w : World)
    (works : List Work) :
    Crew.Run r ⟨w, works⟩ [] ⟨w, (js.map Job.seat).filterMap Seat.work? ++ works⟩ := by
  induction js with
  | nil => exact .refl
  | cons j rest ih =>
    have first : Crew.Step r ⟨w, [] ++ ((rest.map Job.seat).filterMap Seat.work? ++ works)⟩ []
        ⟨w, [] ++ .of true j.task.toScript :: ((rest.map Job.seat).filterMap Seat.work? ++ works)⟩ :=
      .begin ((known j (List.mem_cons_self ..)).begins w)
    exact (ih fun j member => known j (List.mem_cons_of_mem _ member)).andThen first.run

/-- Jobs that run together are a run of the crew: their commands begin, have their turns and come to
their ends. -/
theorem crewed_runTogether (input : Bytes) {js : List Job} (known : ∀ j ∈ js, j.Known r) :
    Crewed r (runTogether input js) := by
  intro stage stage' verdict ran works
  obtain ⟨final, ends, same⟩ := Option.map_eq_some_iff.mp ran
  cases same
  obtain ⟨dropped, run⟩ := Ensemble.run_drives (r := r) (Ensemble.drive?_eq_some_iff.mp ends)
    (fun seat member => by
      obtain ⟨j, -, rfl⟩ := List.mem_map.mp member
      exact ⟨j.wiring, rfl⟩) works
  exact ⟨dropped, (run_begin known stage.world works).trans run⟩

theorem crewed_runJobs (input : Bytes) {js : List Job} (known : ∀ j ∈ js, j.Known r) :
    Crewed r (runJobs input js) := by
  intro stage stage' verdict ran works
  match js with
  | [j] => exact crewed_runAlone input (known j (List.mem_singleton_self j)) _ _ _ ran works
  | [] | _ :: _ :: _ => exact crewed_runTogether input known _ _ _ ran works

/-- What is done before the commands of a pipeline run is a piece of work of its own. -/
theorem crewed_preparation (p : Pipeline) :
    Crewed r (runTask (Prepared.ofPipeline p)) := by
  intro stage stage' result ran works
  obtain ⟨⟨_, w⟩, ends, same⟩ := Option.map_eq_some_iff.mp ran
  cases same
  obtain ⟨⟨_, final⟩, prepared, same⟩ := Option.map_eq_some_iff.mp ends
  cases same
  exact ⟨[], Crew.run_alone (.preparation p) prepared⟩

/-- A pipeline is a run of the crew, first its preparation and then its jobs. -/
theorem crewed_runPipeline (p : Pipeline) : Crewed r (runPipeline r p) := by
  rw [runPipeline]
  split
  · exact crewed_pure _
  · split
    · exact crewed_pure _
    · next commands found =>
      refine (crewed_preparation p).andThen fun result => ?_
      cases result with
      | error failure => exact crewed_pure _
      | ok prepared =>
        refine crewed_runJobs _ fun j member => ?_
        obtain ⟨s, -, command, listed, words, rfl | rfl⟩ := of_mem_jobs member
        · obtain ⟨name, known⟩ := mem_of_lookUp found listed
          exact ⟨name, command, words, known, rfl⟩
        · obtain ⟨name, known⟩ := mem_of_lookUp found listed
          exact ⟨name, command, words, known, rfl⟩

/-- By induction on the links: each pipeline that runs is a run of the crew. -/
theorem crewed_runLinks {isCancelled : OnStage Bool} {run : Pipeline → OnStage Verdict}
    (asks : Crewed r isCancelled) (runs : ∀ p, Crewed r (run p)) (sofar : Verdict)
    (gate : Connector) (links : List Link) : Crewed r (runLinks isCancelled run sofar gate links) := by
  induction links generalizing sofar gate with
  | nil => exact crewed_pure _
  | cons link rest ih =>
    rw [runLinks]
    split
    · refine asks.andThen fun cancelled => ?_
      split
      · exact crewed_pure _
      · exact (runs link.pipeline).andThen fun verdict => ih verdict _
    · exact ih sofar _

/-- A line that is run is a run of a crew, beside whatever else is under way. -/
theorem crewed_runLine (line : String) : Crewed r (runLine r line) := by
  have asks : Crewed r (get : OnStage Stage) := by
    intro stage stage' a ran works
    cases ran
    exact ⟨[], .refl⟩
  rw [runLine]
  split
  · exact crewed_pure _
  · refine Crewed.andThen (crewed_runLinks ?_ crewed_runPipeline _ _ _) fun verdict => ?_
    · exact asks.andThen fun _ => crewed_pure _
    · exact asks.andThen fun _ => crewed_pure _

end Lines

end StoreShell
