import StoreShell.Chain.Parser
import StoreShell.LogLine
import StoreShell.Redirection
import StoreShell.Registry
import StoreShell.Script.Alone
import StoreShell.Script.Together

/-!
# Execution of lines

A line is cut into tokens, grouped into a chain, and the pipelines of the chain run one after the
other as their connectors allow. For a pipeline, all commands are looked up first, then redirections
are opened and patterns expanded, and then the commands run: a single one alone, several together.
The failure of a command counts more than a failure to close its redirections, and of several
commands the first one to fail counts.

`none` stands for an execution that never ends.
-/

namespace StoreShell

/-- The state that a line changes: the world, and where output goes. -/
structure Stage where
  world : World
  outlets : Outlets

/-- What is done with a stage and ends with an `α`, or never ends. -/
abbrev OnStage (α : Type) := StateT Stage Option α

namespace Execution

/-- Where the outputs of a command go, and what is redirected. -/
structure Wiring where
  sinks : PerOutput Sink
  redirects : List (Output × Redirect)

/-- The wiring of a command that is not the last one: its output goes to the next one. -/
def innerWiring (s : Segment) : Wiring :=
  ⟨⟨.pipe, if s.mergeErr then .pipe else .caller .err⟩, []⟩

/-- The wiring of the last command. -/
def lastWiring (s : Segment) (p : Prepared) : Wiring :=
  let out := (p.output.map (·.sink .out)).getD (.caller .out)
  let outRedirects := (p.output.map fun r => (.out, r)).toList
  if s.mergeErr then ⟨⟨out, out⟩, outRedirects⟩
  else
    ⟨⟨out, (p.error.map (·.sink .err)).getD (.caller .err)⟩,
      outRedirects ++ (p.error.map fun r => (.err, r)).toList⟩

/-- Closes redirections in order; the first failure is kept. -/
def closeAll (failure : Option Failure) : List (Output × Redirect) → Script (Option Failure)
  | [] => pure failure
  | (which, r) :: rest =>
    .saved which fun content => do
      match ← (r.finish content).toScript with
      | .ok _ => closeAll failure rest
      | .error later => closeAll (failure <|> some later) rest

/-- The failure that flushing the output of a command is, if it is one. A reader that stopped early
is none. -/
def flushFailure? (intoPipe : Bool) : Except StreamError Unit → Option Failure
  | .ok _ => none
  | .error e => if intoPipe && e.trouble = .brokenPipe then none else some (.stream e)

/-- A command whose reader stopped early has not failed. -/
def forgiveBrokenPipe (intoPipe : Bool) : Verdict → Verdict
  | .ok _ => .ok ()
  | .error failure => if intoPipe && failure.isBrokenPipe then .ok () else .error failure

/-- The verdict on a command once its redirections are closed. -/
def concludeWith (verdict : Verdict) (failure : Option Failure) : Verdict :=
  match verdict, failure with
  | .ok _, some failure => .error failure
  | verdict, _ => verdict

/-- What is done once a command has ended: its output is flushed, its streams are let go of, and its
redirections are closed unless it was cancelled. -/
def closing (w : Wiring) (verdict : Verdict) : Script Verdict :=
  let intoPipe := w.sinks.out = .pipe
  .flush .out fun flushed => .release <|
    match forgiveBrokenPipe intoPipe verdict with
    | .error .cancelled => .done (.error .cancelled)
    | verdict => do
      let failure ← closeAll (flushFailure? intoPipe flushed) w.redirects
      return concludeWith verdict failure

/-- A command with everything that it needs to run. -/
structure Job where
  name : String
  task : Task Unit
  wiring : Wiring

def jobs (p : Prepared) : List Segment → List Command → List (List String) → List Job
  | [s], command :: _, args :: _ => [⟨s.name, command args, lastWiring s p⟩]
  | s :: segments, command :: commands, args :: more =>
    ⟨s.name, command args, innerWiring s⟩ :: jobs p segments commands more
  | _, _, _ => []

/-- Each job is one of the commands with the wiring of its place. -/
theorem of_mem_jobs {p : Prepared} {segments : List Segment} {commands : List Command}
    {args : List (List String)} {j : Job} (member : j ∈ jobs p segments commands args) :
    ∃ s ∈ segments, ∃ command ∈ commands, ∃ words,
      j = ⟨s.name, command words, innerWiring s⟩ ∨ j = ⟨s.name, command words, lastWiring s p⟩ := by
  induction segments, commands, args using jobs.induct with
  | case1 s command commands args more =>
    obtain rfl := List.mem_singleton.mp member
    exact ⟨s, List.mem_cons_self .., command, List.mem_cons_self .., args, Or.inr rfl⟩
  | case2 s segments command commands args more several ih =>
    rw [jobs] at member
    · rcases List.mem_cons.mp member with rfl | member
      · exact ⟨s, List.mem_cons_self .., command, List.mem_cons_self .., args, Or.inl rfl⟩
      · obtain ⟨s', segment, command', known, job⟩ := ih member
        exact ⟨s', List.mem_cons_of_mem _ segment, command', List.mem_cons_of_mem _ known, job⟩
    · exact several
  | case3 segments commands args single several =>
    rw [jobs] at member
    · cases member
    · exact single
    · exact several

/-- The commands of a pipeline, if all of them are known. -/
def lookUp (r : Registry) : List Segment → Except Failure (List Command)
  | [] => .ok []
  | s :: rest =>
    match r.get? s.name with
    | none => .error (.commandNotFound s.name)
    | some command => (lookUp r rest).map (command :: ·)

/-- Every command that is looked up comes from the registry. -/
theorem mem_of_lookUp {r : Registry} {segments : List Segment} {commands : List Command}
    (found : lookUp r segments = .ok commands) {command : Command} (member : command ∈ commands) :
    ∃ name, r.get? name = some command := by
  induction segments generalizing commands with
  | nil =>
    cases found
    cases member
  | cons s rest ih =>
    rw [lookUp] at found
    split at found
    · cases found
    · next first known =>
      cases behind : lookUp r rest with
      | error failure =>
        rw [behind] at found
        cases found
      | ok others =>
        rw [behind] at found
        cases found
        rcases List.mem_cons.mp member with rfl | member
        · exact ⟨s.name, known⟩
        · exact ih behind member

def runAlone (input : Bytes) (j : Job) : OnStage Verdict := fun stage =>
  let script : Script Verdict := j.task.toScript.bind (closing j.wiring)
  (script.run? ⟨stage.world, stage.outlets, input, j.wiring.sinks⟩).map fun (verdict, scene) =>
    (verdict, ⟨scene.world, scene.outlets⟩)

def Job.seat (j : Job) : Seat (Script Verdict) :=
  ⟨j.name, .command j.task.toScript, j.wiring.sinks, closing j.wiring⟩

def runTogether (input : Bytes) (js : List Job) : OnStage Verdict := fun stage =>
  let ensemble : Ensemble (Script Verdict) :=
    { world := stage.world
      outlets := stage.outlets
      input
      capacity := stage.world.settings.pipeCapacity
      pipes := List.replicate (js.length - 1) {}
      seats := js.map Job.seat }
  (ensemble.run? Script.act).map fun m =>
    (match m.failure with | none => .ok () | some failure => .error failure,
      ⟨m.world, m.outlets⟩)

/-- What is kept for redirections belongs to one pipeline. -/
def forgetSaved (stage : Stage) : Stage :=
  { stage with outlets.saved := ⟨{}, {}⟩ }

/-- Runs jobs, a single one alone. -/
def runJobs (input : Bytes) (js : List Job) : OnStage Verdict := fun stage =>
  match js with
  | [j] => runAlone input j (forgetSaved stage)
  | js => runTogether input js (forgetSaved stage)

/-- Runs a script that uses no streams. -/
def runTask (t : Task α) : OnStage (Except Failure α) := fun stage =>
  (stage.world.run? t.toScript).map fun (result, world) => (result, { stage with world })

def runPipeline (r : Registry) (p : Pipeline) : OnStage Verdict := do
  if p.segments.isEmpty then return .ok ()
  match lookUp r p.segments with
  | .error failure => return .error failure
  | .ok commands =>
    match ← runTask (Prepared.ofPipeline p) with
    | .error failure => return .error failure
    | .ok prepared => runJobs prepared.input (jobs prepared p.segments commands prepared.args)

/-- Runs the links of a chain as their connectors allow, given how things stand so far and the
connector in front. The verdict is that on the last pipeline that ran. -/
def runLinks {m : Type → Type} [Monad m] (isCancelled : m Bool) (run : Pipeline → m Verdict)
    (sofar : Verdict) (gate : Connector) : List Link → m Verdict
  | [] => pure sofar
  | link :: rest =>
    if gate.allowsNext (!sofar.isOk) then do
      if ← isCancelled then return .error .cancelled
      let verdict ← run link.pipeline
      runLinks isCancelled run verdict link.connector rest
    else runLinks isCancelled run sofar link.connector rest

def runChain {m : Type → Type} [Monad m] (isCancelled : m Bool) (run : Pipeline → m Verdict)
    (c : Chain) : m Verdict :=
  runLinks isCancelled run (.ok ()) .last c.links

/-- Flushes the streams of the caller, the output first. A failure to do so takes the place of the
verdict. -/
def flushCallers (o : Outlets) (verdict : Verdict) : Verdict :=
  match o.callers.out.flush with
  | .error e => .error (.stream e)
  | .ok _ =>
    match o.callers.err.flush with
    | .error e => .error (.stream e)
    | .ok _ => verdict

/-- Runs the chain of a line, and flushes the streams of the caller. -/
def runLineChain (r : Registry) (c : Chain) : OnStage Verdict := do
  let verdict ← runChain (return (← get).world.cancelled) (runPipeline r) c
  return flushCallers (← get).outlets verdict

end Execution

def runLine (r : Registry) (line : String) : OnStage Verdict :=
  match Chain.ofLine line with
  | .error failure => pure (.error failure)
  | .ok c => Execution.runLineChain r c

/-- What the log says about a line. A line that cannot be cut into tokens leaves no trace there. -/
def logOf (policy : LogPolicy) (line : String) : List String :=
  match tokenize line with
  | .error _ => []
  | .ok tokens => [LogLine.describe policy line tokens.length]

end StoreShell
