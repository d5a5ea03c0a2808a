import StoreShell.Proofs.CoupledTurns

/-! # Lines are coupled

A line of standard commands, run on two matched stages, ends on matched stages with one verdict or
ends on neither. Everything between the text of the line and its commands settles, the commands are
coupled, and the redirections that are closed belong to the current cache and store. Unless the
comparison is strict, the error output of every command has to go to the caller.
-/

namespace StoreShell

variable {strict : Bool} {cache remote : Nat} {α β : Type}

/-- Error output that neither joins the output nor is redirected. -/
def Segment.Undisturbed (s : Segment) : Prop := s.mergeErr = false ∧ s.error = none

instance (s : Segment) : Decidable s.Undisturbed := inferInstanceAs (Decidable (_ ∧ _))

/-- A line no error output of which joins the output or is redirected, if it can be read at all. -/
def Undisturbed (line : String) : Prop :=
  ∀ c ∈ (Chain.ofLine line).toOption, ∀ link ∈ c.links, ∀ s ∈ link.pipeline.segments, s.Undisturbed

instance (line : String) : Decidable (Undisturbed line) :=
  inferInstanceAs (Decidable (∀ c ∈ (Chain.ofLine line).toOption, _))

/-- Stages between two pieces of work. -/
structure MatchedStages (strict : Bool) (cache remote : Nat) (s s' : Stage) : Prop where
  worlds : Matched strict cache remote s.world s'.world
  outlets : MatchedOutlets strict s.outlets s'.outlets

/-- Whether work ends on matched stages with one result, or on none. -/
def Keeps (strict : Bool) (cache remote : Nat) (x : OnStage α) : Prop :=
  ∀ s s', MatchedStages strict cache remote s s' →
    Option.Rel (SameEnd (MatchedStages strict cache remote)) (x s) (x s')

namespace Keeps

theorem pure (a : α) : Keeps strict cache remote (Pure.pure a : OnStage α) :=
  fun _ _ matched => .some ⟨rfl, matched⟩

/-- Work that keeps stages matched may be followed by work that does. -/
theorem bind {x : OnStage α} {f : α → OnStage β} (first : Keeps strict cache remote x)
    (next : ∀ a, Keeps strict cache remote (f a)) :
    Keeps strict cache remote (x >>= f : OnStage β) := by
  intro s s' matched
  have ends := first s s' matched
  change Option.Rel _ ((x s).bind fun p => f p.1 p.2) ((x s').bind fun p => f p.1 p.2)
  generalize x s = one, x s' = other at ends
  cases ends with
  | none => exact .none
  | @some p q related =>
    obtain ⟨a, t⟩ := p
    obtain ⟨b, t'⟩ := q
    obtain ⟨same, matched'⟩ := related
    cases same
    exact next a t t' matched'

end Keeps

namespace Execution

/-! ### Closing -/

/-- Redirections are closed alike, one after the other, and the first failure is kept in both runs.
-/
theorem coupled_closeAll {redirects : List (Output × Redirect)}
    (belongs : ∀ r ∈ redirects, r.2.Belongs cache remote) (failure : Option Failure) :
    Coupled strict cache remote (closeAll failure redirects) (closeAll failure redirects) := by
  induction redirects generalizing failure with
  | nil => exact coupled_done _
  | cons first rest ih =>
    obtain ⟨which, r⟩ := first
    have here := belongs _ (List.mem_cons_self ..)
    have behind := fun r member => belongs r (List.mem_cons_of_mem _ member)
    intro w v matched
    refine .saved matched fun content => ?_
    refine Coupled.bind (Redirect.settled_finish here content).coupled fun result => ?_
    cases result with
    | ok _ => exact ih behind _
    | error later => exact ih behind _

/-- What is done after the end of a command is the same in both runs. -/
theorem coupled_closing {w : Wiring} (belongs : ∀ r ∈ w.redirects, r.2.Belongs cache remote)
    (verdict : Verdict) : Coupled strict cache remote (closing w verdict) (closing w verdict) := by
  intro _ _ matched
  refine .flush matched fun flushed _ _ matched => .release matched ?_
  have closes : ∀ verdict, Coupled strict cache remote
      (do let failure ← closeAll (flushFailure? (w.sinks.out = .pipe) flushed) w.redirects
          return concludeWith verdict failure : Script Verdict)
      (do let failure ← closeAll (flushFailure? (w.sinks.out = .pipe) flushed) w.redirects
          return concludeWith verdict failure : Script Verdict) :=
    fun _ => (coupled_closeAll belongs _).bind fun _ => coupled_done _
  split
  · exact coupled_done _
  · exact closes _

/-! ### Preparation -/

end Execution

namespace Prepared

/-- Whether redirections write, if at all, to a numbered store and tell a numbered cache. -/
structure Belongs (cache remote : Nat) (p : Prepared) : Prop where
  output : ∀ r, p.output = some r → r.Belongs cache remote
  error : ∀ r, p.error = some r → r.Belongs cache remote

/-- What is done with a value that there may be is settled if it is settled for every value. -/
theorem settled_onSome {holds : β → Prop} {f : α → Task β} (a : Option α)
    (settled : ∀ a, SettledTo cache remote holds (f a)) :
    SettledTo cache remote (fun b => (∀ r, b = some r → holds r) ∧ (a = none → b = none))
      (onSome a f) := by
  cases a with
  | none => exact settledTo_pure ⟨nofun, fun _ => rfl⟩
  | some a =>
    have goesOn : SettledTo cache remote
        (fun b => (∀ r, b = some r → holds r) ∧ (some a = none → b = none))
        (f a >>= fun b => pure (some b) : Task (Option β)) :=
      (settled a).andThen fun b here => settledTo_pure ⟨fun r same => by cases same; exact here, nofun⟩
    exact goesOn

/-- The arguments of all commands of a pipeline come out alike. -/
theorem settled_expandAll {site : Glob.Site} (cacheIs : site.cache = cache)
    (remoteIs : site.remote = remote) (segments : List Segment) :
    Settled cache remote (expandAll site segments) := by
  induction segments with
  | nil => exact settled_pure []
  | cons s rest ih =>
    exact (Glob.settled_expand cacheIs remoteIs s.args).andThen fun args =>
      ih.andThen fun more => settled_pure _

/-- Preparing a pipeline opens redirections for the current cache and store, and none that is not
asked for. -/
theorem settled_ofPipeline (p : Pipeline) :
    SettledTo cache remote (fun prepared => prepared.Belongs cache remote ∧
        (p.segments.getLast?.bind Segment.error = none → prepared.error = none))
      (ofPipeline p) := by
  refine (settled_onSome _ fun path => (settled_openInput path).settledTo).andThen fun input _ => ?_
  refine (settled_onSome _ fun target => Redirect.settled_open? target).andThen fun output kept => ?_
  refine (settled_onSome _ fun target => Redirect.settled_open? target).andThen fun error kept' => ?_
  refine settledTo_desk.andThen fun desk here => ?_
  refine (settled_expandAll here.1 here.2 _).settledTo.andThen fun args _ => ?_
  exact settledTo_pure ⟨⟨kept.1, kept'.1⟩, kept'.2⟩

end Prepared

namespace Execution

/-- A job whose command is coupled and whose streams lead where they may. -/
structure Job.Fair (strict : Bool) (cache remote : Nat) (j : Job) : Prop where
  task : Coupled strict cache remote j.task.toScript j.task.toScript
  errs : OpenErr strict j.wiring.sinks
  redirects : ∀ r ∈ j.wiring.redirects, r.2.Belongs cache remote

section Jobs

variable {p : Prepared}

/-- The error output of a command that another one follows goes to the caller, unless the comparison
is strict. -/
theorem fair_innerWiring {s : Segment} (quiet : ¬ strict → s.Undisturbed) :
    OpenErr strict (innerWiring s).sinks := by
  intro loose
  rw [innerWiring, (quiet loose).1]
  rfl

/-- The redirections of the last command belong to the cache and the store that were current when
they were opened. -/
theorem fair_lastWiring {s : Segment} (belongs : p.Belongs cache remote)
    (quiet : ¬ strict → s.Undisturbed ∧ p.error = none) :
    OpenErr strict (lastWiring s p).sinks ∧
      ∀ r ∈ (lastWiring s p).redirects, r.2.Belongs cache remote := by
  have output : ∀ r ∈ (p.output.map fun r => (Output.out, r)).toList, r.2.Belongs cache remote := by
    intro r member
    obtain ⟨redirect, opened, rfl⟩ := Option.map_eq_some_iff.mp (Option.mem_toList.mp member)
    exact belongs.output redirect opened
  have error : ∀ r ∈ (p.error.map fun r => (Output.err, r)).toList, r.2.Belongs cache remote := by
    intro r member
    obtain ⟨redirect, opened, rfl⟩ := Option.map_eq_some_iff.mp (Option.mem_toList.mp member)
    exact belongs.error redirect opened
  rw [lastWiring]
  split
  · next merges =>
    exact ⟨fun loose => absurd merges (by simp [(quiet loose).1.1]), output⟩
  · refine ⟨fun loose => ?_, fun r member => (List.mem_append.mp member).elim (output r) (error r)⟩
    simp only [(quiet loose).2, Option.map_none, Option.getD_none]

/-- Each job of a pipeline has a coupled task, and error output as the comparison needs it. -/
theorem fair_jobs (belongs : p.Belongs cache remote) (segments : List Segment)
    (commands : List Command) (args : List (List String))
    (coupled : ∀ command ∈ commands, ∀ args,
      Coupled strict cache remote (command args) (command args))
    (quiet : ¬ strict → (∀ s ∈ segments, s.Undisturbed) ∧ p.error = none) :
    ∀ j ∈ jobs p segments commands args, j.Fair strict cache remote := by
  intro j member
  obtain ⟨s, segment, command, known, words, rfl | rfl⟩ := of_mem_jobs member
  · refine ⟨coupled command known words, ?_, by simp [innerWiring]⟩
    exact fair_innerWiring fun loose => (quiet loose).1 s segment
  · obtain ⟨errs, redirects⟩ := fair_lastWiring (s := s) belongs fun loose =>
      ⟨(quiet loose).1 s segment, (quiet loose).2⟩
    exact ⟨coupled command known words, errs, redirects⟩

end Jobs

/-! ### Running -/

theorem keeps_runAlone (input : Bytes) {j : Job} (fair : j.Fair strict cache remote) :
    Keeps strict cache remote (runAlone input j) := by
  intro s s' matched
  have coupled : Coupled strict cache remote (j.task.toScript.bind (closing j.wiring))
      (j.task.toScript.bind (closing j.wiring)) :=
    fair.task.bind fun verdict => coupled_closing fair.redirects verdict
  have streams : MatchedStreams strict (⟨s.world, s.outlets, input, j.wiring.sinks⟩ : Scene)
      ⟨s'.world, s'.outlets, input, j.wiring.sinks⟩ := ⟨matched.outlets, rfl, rfl, fair.errs⟩
  refine ((coupled _ _ matched.worlds).run? rfl rfl streams).map ?_
  rintro ⟨verdict, scene⟩ ⟨verdict', scene'⟩ ⟨same, ends⟩
  exact ⟨same, ends.worlds, ends.outlets⟩

private def gathered (input : Bytes) (js : List Job) (stage : Stage) :
    Ensemble (Script Verdict) where
  world := stage.world
  outlets := stage.outlets
  input
  capacity := stage.world.settings.pipeCapacity
  pipes := List.replicate (js.length - 1) {}
  seats := js.map Job.seat

/-- Jobs that run together on matched stages end with one verdict. -/
theorem keeps_runTogether (input : Bytes) {js : List Job}
    (fair : ∀ j ∈ js, j.Fair strict cache remote) :
    Keeps strict cache remote (runTogether input js) := by
  intro s s' matched
  have level : Level strict cache remote (fun _ => Coupled strict cache remote)
      (gathered input js s) (gathered input js s') := by
    refine ⟨matched.outlets, rfl, ?_, rfl, rfl, fun i => ?_⟩
    · exact congrArg Settings.pipeCapacity matched.worlds.twins.settings
    · simp only [gathered, List.getElem?_map]
      cases here : js[i]? with
      | none => exact .none
      | some j =>
        have fair := fair j (List.mem_of_getElem? here)
        exact .some ⟨rfl, rfl, fair.errs, coupled_closing fair.redirects, .command fair.task⟩
  refine (level.run? matched.worlds).map ?_
  rintro final final' ⟨outlets, failure, worlds⟩
  refine ⟨?_, worlds, outlets⟩
  simp only [failure]

theorem keeps_runJobs (input : Bytes) {js : List Job}
    (fair : ∀ j ∈ js, j.Fair strict cache remote) :
    Keeps strict cache remote (runJobs input js) := by
  intro s s' matched
  have fresh : MatchedStages strict cache remote (forgetSaved s) (forgetSaved s') :=
    ⟨matched.worlds, matched.outlets.forgetSaved⟩
  match js with
  | [j] => exact keeps_runAlone input (fair j (List.mem_singleton_self j)) _ _ fresh
  | [] | _ :: _ :: _ => exact keeps_runTogether input fair _ _ fresh

/-- A task that settles to something is followed by what comes next. -/
theorem keeps_runTask {holds : α → Prop} {t : Task α} (settled : SettledTo cache remote holds t)
    {f : Except Failure α → OnStage β}
    (fails : ∀ failure, Keeps strict cache remote (f (.error failure)))
    (next : ∀ a, holds a → Keeps strict cache remote (f (.ok a))) :
    Keeps strict cache remote (runTask t >>= f : OnStage β) := by
  intro s s' matched
  obtain ⟨result, w, v, left, right, holds, twins⟩ := settled _ _ matched.worlds.twins
  have one : strict → w = v := by
    intro equal
    rw [matched.worlds.one equal, right] at left
    exact (congrArg Prod.snd (Option.some.inj left)).symm
  have runs : ∀ {s : Stage} {u}, t.settle? s.world = some (result, u) →
      (runTask t >>= f : OnStage β) s = f result { s with world := u } := by
    intro s u settles
    have ran : t.toScript.run? { world := s.world } = some (result, { world := u }) :=
      Script.run?_of_settle? settles
    change ((s.world.run? t.toScript).map _).bind _ = _
    rw [World.run?, ran]
    rfl
  rw [runs left, runs right]
  have after : MatchedStages strict cache remote { s with world := w } { s' with world := v } :=
    ⟨⟨twins, one⟩, matched.outlets⟩
  cases result with
  | ok a => exact next a (holds a rfl) _ _ after
  | error failure => exact fails failure _ _ after

/-- The standard commands of a pipeline take matched stages to matched stages. -/
theorem keeps_runPipeline (p : Pipeline) (quiet : ¬ strict → ∀ s ∈ p.segments, s.Undisturbed) :
    Keeps strict cache remote (runPipeline Registry.standard p) := by
  rw [runPipeline]
  split
  · exact Keeps.pure _
  · cases found : lookUp Registry.standard p.segments with
    | error failure => exact Keeps.pure _
    | ok commands =>
      refine keeps_runTask (Prepared.settled_ofPipeline p) (fun failure => Keeps.pure _) ?_
      rintro prepared ⟨belongs, unasked⟩
      refine keeps_runJobs _ (fair_jobs belongs _ _ _ (fun command member => ?_) fun loose => ?_)
      · obtain ⟨name, known⟩ := mem_of_lookUp found member
        exact Registry.coupled_standard known
      · refine ⟨quiet loose, unasked ?_⟩
        cases last : p.segments.getLast? with
        | none => rfl
        | some s => exact (quiet loose s (List.mem_of_getLast? last)).2

/-- By induction on the links: the gates open alike because the verdicts are the same. -/
theorem keeps_runLinks {isCancelled : OnStage Bool} {run : Pipeline → OnStage Verdict}
    (calm : Keeps strict cache remote isCancelled) {links : List Link}
    (keeps : ∀ link ∈ links, Keeps strict cache remote (run link.pipeline)) (sofar : Verdict)
    (gate : Connector) :
    Keeps strict cache remote (runLinks isCancelled run sofar gate links) := by
  induction links generalizing sofar gate with
  | nil => exact Keeps.pure sofar
  | cons link rest ih =>
    have behind := ih fun link member => keeps link (List.mem_cons_of_mem _ member)
    rw [runLinks]
    split
    · refine calm.bind fun cancelled => ?_
      split
      · exact Keeps.pure _
      · exact (keeps link (List.mem_cons_self ..)).bind fun verdict => behind verdict _
    · exact behind sofar _

theorem keeps_isCancelled :
    Keeps strict cache remote (do return (← get).world.cancelled : OnStage Bool) := by
  intro s s' matched
  refine .some ⟨?_, matched⟩
  exact matched.worlds.twins.left.live.trans matched.worlds.twins.right.live.symm

/-- Streams of the caller that match are flushed with the same result. -/
theorem flushCallers_eq {o o' : Outlets} (matched : MatchedOutlets strict o o')
    (verdict : Verdict) : flushCallers o verdict = flushCallers o' verdict := by
  have err : o.callers.err.flush = o'.callers.err.flush := matched.flush (.caller .err)
  rw [flushCallers, flushCallers, matched.out, err]

end Execution

/-- A line of standard commands takes matched stages to matched stages. -/
theorem keeps_runLine (line : String)
    (quiet : ¬ strict → Undisturbed line) :
    Keeps strict cache remote (runLine Registry.standard line) := by
  rw [runLine]
  cases parsed : Chain.ofLine line with
  | error failure => exact Keeps.pure _
  | ok c =>
    have runs : Keeps strict cache remote (Execution.runChain (do return (← get).world.cancelled)
        (Execution.runPipeline Registry.standard) c) :=
      Execution.keeps_runLinks Execution.keeps_isCancelled (fun link member =>
        Execution.keeps_runPipeline _ fun loose => quiet loose c (by rw [parsed]; rfl) link member) _ _
    refine runs.bind fun verdict => ?_
    intro s s' matched
    exact .some ⟨Execution.flushCallers_eq matched.outlets verdict, matched⟩

end StoreShell
