import Mathlib.Logic.Function.Basic
import StoreShell.Proofs.PipelineFailures
import StoreShell.Proofs.PipelineProgress
import StoreShell.Proofs.ScriptProcessors

/-! # Output of pipelines

The output of a pipeline of sequential commands is that of their stream functions, one after the
other, whatever its pipes hold and in whatever order the commands step. A pipe with a reader carries a
piece of what the functions up to it give, and what a command reads and writes is what its processor
takes and writes. A command whose reader is gone may do anything from then on: nobody sees it. So a
command that ends early changes nothing of what comes out at the end.
-/

namespace StoreShell

open Ensemble StreamFunction

namespace Lineup

variable {σ τ : Type}

/-- The stream functions of the commands of a pipeline, given their processors: what goes into the
pipe of a command that another one follows, and some of the outputs of the last one. -/
def functions (l : Lineup σ) (impulse : Place σ → τ → Impulse τ) (processor : Place σ → τ)
    (which : Output → Bool) : List StreamFunction :=
  l.innerPlaces.map (fun place => .ofProcessor (impulse place)
    (fun dest => place.wiring.sinks.get dest = .pipe) (processor place)) ++
    [.ofProcessor (impulse l.lastPlace) which (processor l.lastPlace)]

variable {l : Lineup σ} {impulse : Place σ → τ → Impulse τ} {processor : Place σ → τ}
  {which : Output → Bool} {i : Nat} {place : Place σ}

/-- A command that another one follows gives what it writes to its pipe. -/
theorem functions_of_inner (found : l.places[i]? = some place) (inside : i < l.inner.length) :
    (l.functions impulse processor which)[i]? = some (.ofProcessor (impulse place)
      (fun dest => place.wiring.sinks.get dest = .pipe) (processor place)) := by
  rw [functions, List.getElem?_append_left (by simpa using inside), List.getElem?_map,
    getElem?_innerPlaces found inside]
  rfl

/-- The last command gives what it writes to the outputs that are looked at. -/
theorem functions_of_last :
    (l.functions impulse processor which)[l.inner.length]? =
      some (.ofProcessor (impulse l.lastPlace) which (processor l.lastPlace)) := by
  rw [functions, List.getElem?_append_right (by simp)]
  simp

theorem length_functions : (l.functions impulse processor which).length = l.inner.length + 1 := by
  simp [functions]

end Lineup

/-- Whether somebody reads what a seat writes to its pipe, if it does. -/
def Ensemble.Heard {σ : Type} (m : Ensemble σ) (i : Nat) (sinks : PerOutput Sink) : Prop :=
  ∀ dest, sinks.get dest = .pipe → (m.pipeAt i).readerGone = false

/-- A pipeline of sequential commands: what its commands are and do, where they write to, what they
read, and the processor of each of them. -/
structure Arrangement (σ τ : Type) where
  act : σ → Action σ
  impulse : Place σ → τ → Impulse τ
  lineup : Lineup σ
  processor : Place σ → τ
  which : Output → Bool
  outlets : Outlets
  input : Bytes

namespace Arrangement

variable {σ τ : Type} (a : Arrangement σ τ)

/-- What comes out of so many of the first commands. -/
def reaching (i : Nat) (f : Flow) : Prop :=
  (compose ((a.lineup.functions a.impulse a.processor a.which).take i)).gives ⟨a.input, true⟩ f

/-- Whether a processor has come to a state with what its seat has read, which is what the commands
before give, and with what its seat has written. -/
structure Tracks (i : Nat) (place : Place σ) (taken : Bytes) (written : List (Output × UInt8))
    (x : τ) (ahead : Bytes) (closed : Bool) : Prop where
  runs : Runs (a.impulse place) closed (a.processor place) taken written x ahead
  reached : a.reaching i ⟨taken, closed⟩

/-- Whether a seat is where its processor is. -/
inductive Paced (m : Ensemble σ) (i : Nat) (place : Place σ) (taken : Bytes)
    (written : List (Output × UInt8)) : Phase σ → Prop where
  | command {s x ahead closed} : m.Holding i place.wiring.sinks →
      a.Tracks i place taken written x ahead closed →
      Follows a.act (a.impulse place) a.outlets place.wiring.sinks s x ahead closed →
      (closed → (m.front i).held = [] ∧ (m.front i).writerGone) →
      Paced m i place taken written (.command s)
  | closing {s x ahead closed} : a.Tracks i place taken written x ahead closed →
      a.impulse place x = .stop → Paced m i place taken written (.closing s)
  | ended {x ahead closed} : a.Tracks i place taken written x ahead closed →
      a.impulse place x = .stop → Paced m i place taken written .ended

/-- Whether the pipes carry what the stream functions give, by what the seats have taken. -/
structure Synced (log : List (Nat × Deed)) (taken : Nat → Bytes) (m : Ensemble σ) : Prop where
  outlets : a.outlets.Alike m.outlets
  supply : taken 0 ++ m.input = a.input
  pipes : ∀ {k place}, a.lineup.places[k]? = some place → (m.pipeAt k).readerGone = false →
    taken (k + 1) ++ (m.pipeAt k).held =
      through (fun dest => place.wiring.sinks.get dest = .pipe) (outputOf log k)
  seats : ∀ {i seat place}, m.seats[i]? = some seat → a.lineup.places[i]? = some place →
    m.Heard i place.wiring.sinks →
    a.Paced m i place (taken i) (outputOf log i) seat.phase

namespace Synced

variable {a} {log : List (Nat × Deed)} {taken : Nat → Bytes} {m m' : Ensemble σ} {i : Nat}
  {seat : Seat σ} {place : Place σ}

private theorem exists_tracks {bytes : Bytes} {written : List (Output × UInt8)} {phase : Phase σ}
    (piped : place.wiring.sinks.out = .pipe) (paced : a.Paced m i place bytes written phase) :
    ∃ x ahead closed, a.Tracks i place bytes written x ahead closed ∧
      ((m.pipeAt i).writerGone → (a.impulse place x).isStop) := by
  cases paced with
  | command holding tracks =>
    refine ⟨_, _, _, tracks, fun gone => ?_⟩
    rw [holding.2 piped] at gone
    cases gone
  | closing tracks stops | ended tracks stops =>
    exact ⟨_, _, _, tracks, fun _ => by rw [stops]; rfl⟩

private theorem imp_paced {bytes : Bytes} {written : List (Output × UInt8)} {phase : Phase σ}
    (paced : a.Paced m i place bytes written phase)
    (holding : m.Holding i place.wiring.sinks → m'.Holding i place.wiring.sinks)
    (spent : m.Holding i place.wiring.sinks → (m.front i).held = [] ∧ (m.front i).writerGone →
      (m'.front i).held = [] ∧ (m'.front i).writerGone) :
    a.Paced m' i place bytes written phase := by
  cases paced with
  | command holds tracks follows ends =>
    exact .command (holding holds) tracks follows fun closed => spent holds (ends closed)
  | closing tracks stops => exact .closing tracks stops
  | ended tracks stops => exact .ended tracks stops

private theorem reaching_front (synced : a.Synced log taken m)
    (lengths : m.seats.length = a.lineup.places.length) (here : m.seats[i]? = some seat)
    {sinks : PerOutput Sink} (holding : m.Holding i sinks) :
    a.reaching i ⟨taken i ++ (m.front i).held, (m.front i).writerGone⟩ := by
  cases i with
  | zero =>
    rw [reaching, List.take_zero, compose_nil, front, synced.supply]
    exact le_refl _
  | succ before =>
    have inside := (List.getElem?_eq_some_iff.mp here).1
    have behind := List.getElem?_eq_getElem (l := m.seats) (i := before) (by omega)
    have found := List.getElem?_eq_getElem (l := a.lineup.places) (i := before) (by omega)
    have alive := holding.1 before rfl
    have follows : before < a.lineup.inner.length := by
      rw [lengths, Lineup.length_places] at inside
      omega
    obtain ⟨x, ahead, closed, tracks, stops⟩ := exists_tracks
      ((Lineup.out_eq_pipe_iff found).mpr follows) (synced.seats behind found fun _ _ => alive)
    rw [reaching, compose_take_succ (Lineup.functions_of_inner found follows), front,
      synced.pipes found alive]
    refine ⟨_, tracks.reached, _, x, ahead, tracks.runs, List.prefix_rfl, fun gone => ?_⟩
    have gone : (m.pipeAt before).writerGone = true := gone
    rw [stops gone, gone]

private theorem advance (synced : a.Synced log taken m) (here : m.seats[i]? = some seat)
    (found : a.lineup.places[i]? = some place) {phase : Phase σ} {bytes : Bytes}
    {deed : Option Deed} (seats : m'.seats = (m.setPhase i phase).seats)
    (passes : Passes m m' i place.wiring.sinks bytes deed)
    (ends : m.KeepsEnds m' i)
    (quiet : place.wiring.sinks.out = .pipe → (m.pipeAt i).readerGone = false →
      (m.pipeAt i).writerGone → (m'.pipeAt i).held = (m.pipeAt i).held)
    (own : m'.Heard i place.wiring.sinks → a.Paced m' i place (taken i ++ bytes)
      (outputOf log i ++ deed.toList.flatMap Deed.writes) phase) :
    a.Synced (log ++ deed.toList.map (i, ·)) (Function.update taken i (taken i ++ bytes)) m' := by
  refine ⟨synced.outlets.trans passes.outlets, ?_, fun {k other} there open_ => ?_,
    fun {j seat' other} there known heard => ?_⟩
  · by_cases first : i = 0
    · subst first
      have front : m.input = bytes ++ m'.input := passes.front
      rw [Function.update_self, List.append_assoc, ← front]
      exact synced.supply
    · rw [Function.update_of_ne (Ne.symm first), passes.input first]
      exact synced.supply
  · have account := synced.pipes there (ends.alive open_)
    rw [outputOf_append_step]
    by_cases own : k = i
    · subst own
      obtain rfl := Option.some.inj (there.symm.trans found)
      rw [Function.update_of_ne (Nat.succ_ne_self k), passes.behind, if_pos rfl, through_append,
        ← account, List.append_assoc]
    · rw [if_neg own, List.append_nil]
      by_cases front : k + 1 = i
      · subst front
        have before : (m.pipeAt k).held = bytes ++ (m'.pipeAt k).held := passes.front
        rw [Function.update_self, List.append_assoc, ← before]
        exact account
      · rw [Function.update_of_ne front, passes.others k own front]
        exact account
  · rw [outputOf_append_step]
    by_cases same : j = i
    · subst same
      obtain rfl := Option.some.inj (known.symm.trans found)
      rw [seats, getElem?_setPhase_self, here] at there
      cases there
      rw [Function.update_self, if_pos rfl]
      exact own heard
    · rw [seats, getElem?_setPhase_of_ne same] at there
      rw [Function.update_of_ne same, if_neg same, List.append_nil]
      refine imp_paced (synced.seats there known fun dest piped => ends.alive (heard dest piped))
        (ends.holding j _ same) fun kept spent => ?_
      cases j with
      | zero =>
        have input : m'.input = m.input := passes.input (Ne.symm same)
        rw [front, input]
        exact spent
      | succ before =>
        refine ⟨?_, ends.writer before spent.2⟩
        have open_ := kept.1 before rfl
        by_cases behind : before = i
        · subst behind
          have follows : before < a.lineup.inner.length := by
            have inside := (List.getElem?_eq_some_iff.mp known).1
            rw [Lineup.length_places] at inside
            omega
          have piped := (Lineup.out_eq_pipe_iff found).mpr follows
          exact (quiet piped open_ spent.2).trans spent.1
        · exact (passes.others before behind same).trans spent.1

/-- A seat comes to another phase without taking or writing anything. -/
theorem advance_still (synced : a.Synced log taken m) (here : m.seats[i]? = some seat)
    (found : a.lineup.places[i]? = some place) {phase : Phase σ} {deed : Option Deed}
    (silent : deed.toList.flatMap Deed.writes = []) (seats : m'.seats = (m.setPhase i phase).seats)
    (passes : Passes m m' i place.wiring.sinks [] deed)
    (ends : m.KeepsEnds m' i)
    (own : m.Heard i place.wiring.sinks →
      a.Paced m i place (taken i) (outputOf log i) seat.phase →
        a.Paced m' i place (taken i) (outputOf log i) phase) :
    ∃ taken', a.Synced (log ++ deed.toList.map (i, ·)) taken' m' := by
  refine ⟨_, synced.advance here found seats passes ends (fun _ _ _ => ?_)
    fun heard => ?_⟩
  · rw [passes.behind, silent, through_nil, List.append_nil]
  · rw [silent, List.append_nil, List.append_nil]
    have before : m.Heard i place.wiring.sinks := fun dest piped => ends.alive (heard dest piped)
    exact own before (synced.seats here found before)

/-- A command that nobody reads goes on in any way. -/
theorem advance_unheard (synced : a.Synced log taken m) (fitted : m.Fitted)
    (here : m.seats[i]? = some seat) (found : a.lineup.places[i]? = some place)
    (sinks : seat.sinks = place.wiring.sinks) (unheard : ¬ m.Heard i place.wiring.sinks)
    {action : Action σ} {s' : σ}
    (performed : m.perform? i place.wiring.sinks action = some (s', m')) :
    ∃ taken', a.Synced (log ++ (m.wrote? i place.wiring.sinks action).toList.map (i, ·)) taken'
      (m'.setPhase i (.command s')) := by
  simp only [Heard, not_forall, Bool.not_eq_false] at unheard
  obtain ⟨dest, piped, gone⟩ := unheard
  have inside := (List.getElem?_eq_some_iff.mp here).1
  have ends := KeepsEnds.of_perform? performed
  have seats := fitted.seats
  obtain ⟨bytes, passes⟩ := exists_passes (by omega)
    (fun dest piped => fitted.pipe here (sinks ▸ piped)) performed
  refine ⟨_, synced.advance here found ((SameHouse.perform? performed).seats_setPhase ..)
    (passes.setPhase _) (ends.setPhase _) (fun _ alive => ?_) fun heard => ?_⟩
  · rw [gone] at alive
    cases alive
  · cases gone.symm.trans (ends.alive (heard dest piped))

/-- A sequential command that somebody reads goes on, and so does its processor. -/
theorem advance_heard (synced : a.Synced log taken m) (fitted : m.Fitted)
    (lengths : m.seats.length = a.lineup.places.length) (here : m.seats[i]? = some seat)
    (found : a.lineup.places[i]? = some place) (sinks : seat.sinks = place.wiring.sinks)
    {s s' : σ} (phase : seat.phase = .command s) (heard : m.Heard i place.wiring.sinks)
    (performed : m.perform? i place.wiring.sinks (a.act s) = some (s', m')) :
    ∃ taken', a.Synced (log ++ (m.wrote? i place.wiring.sinks (a.act s)).toList.map (i, ·)) taken'
      (m'.setPhase i (.command s')) := by
  have paced := synced.seats here found heard
  rw [phase] at paced
  cases paced with
  | @command _ x ahead closed holding tracks follows spent =>
    obtain ⟨x', ahead', silent, accords⟩ := staysClose_follows follows
    have inside := (List.getElem?_eq_some_iff.mp here).1
    have ends := KeepsEnds.of_perform? performed
    have same := sameEnds_of_perform? (releases_of_accords accords) performed
    have seats := fitted.seats
    obtain ⟨bytes, closed', y, rest, reached⟩ := exists_reached accords synced.outlets (by omega)
      (fun dest piped => fitted.pipe here (sinks ▸ piped)) heard spent performed
    have passes := reached.passes
    refine ⟨_, synced.advance here found ((SameHouse.perform? performed).seats_setPhase ..)
      (passes.setPhase _) (ends.setPhase _) (fun piped _ gone => ?_) fun _ => ?_⟩
    · rw [holding.2 piped] at gone
      cases gone
    · have before := tracks.runs.trans silent
      rw [List.append_nil] at before
      have supplied : Runs (a.impulse place) closed' (a.processor place) (taken i ++ bytes)
          (outputOf log i) x' (ahead' ++ bytes) := by
        cases closes : closed with
        | true =>
          obtain ⟨rfl, rfl⟩ := reached.stays closes
          rw [List.append_nil, List.append_nil]
          exact closes ▸ before
        | false => exact (closes ▸ before).supply closed' bytes
      have front := passes.front
      have piece : (⟨taken i ++ bytes, closed'⟩ : Flow) ≤
          ⟨taken i ++ (m.front i).held, (m.front i).writerGone⟩ := by
        refine ⟨?_, fun closes => ?_⟩
        · rw [front, ← List.append_assoc]
          exact List.prefix_append ..
        · have shut : closed' = true := closes
          obtain ⟨rfl, held, gone⟩ := reached.spent shut
          rw [held, gone, shut]
      have tracks : a.Tracks i place (taken i ++ bytes) (outputOf log i ++
          (m.wrote? i place.wiring.sinks (a.act s)).toList.flatMap Deed.writes) y rest closed' :=
        ⟨supplied.trans reached.runs, StreamFunction.lower _
          (synced.reaching_front lengths here holding) piece⟩
      refine .command (holding.of_sameEnds same) tracks reached.related fun shut => ?_
      obtain ⟨rfl, held, gone⟩ := reached.spent shut
      rw [held, List.nil_append] at front
      refine ⟨front.symm, ?_⟩
      cases i with
      | zero => rfl
      | succ prior => exact (same prior).2 ▸ gone

/-- Every step but cutting a command off leaves the pipes in step with the stream functions. -/
theorem move {deed : Option Deed} (synced : a.Synced log taken m) (fitted : m.Fitted)
    (lengths : m.seats.length = a.lineup.places.length) (tells : a.lineup.Tells log m)
    (uncut : deed ≠ some .cutOff) (move : Move a.act m i deed m') :
    ∃ taken', a.Synced (log ++ deed.toList.map (i, ·)) taken' m' := by
  cases move with
  | @finish seat s verdict here phase ends =>
    obtain ⟨place, found, -⟩ := tells.story here
    refine synced.advance_still here found rfl rfl (.of_same rfl (fun _ => rfl) (.refl _) rfl)
      (.of_sameEnds fun _ => ⟨rfl, rfl⟩) fun _ paced => ?_
    rw [phase] at paced
    cases paced with
    | command holding tracks follows spent =>
      obtain ⟨y, rest, runs, accords⟩ := staysClose_follows follows
      rw [ends] at accords
      cases accords with
      | finish stops =>
        have runs := tracks.runs.trans runs
        rw [List.append_nil] at runs
        exact .closing ⟨runs, tracks.reached⟩ stops
  | @go seat s s' m'' here phase performed =>
    obtain ⟨place, found, fixture, -⟩ := tells.story here
    have sinks := (Place.of_fixture fixture).2.1
    rw [sinks] at performed ⊢
    by_cases heard : m.Heard i place.wiring.sinks
    · exact synced.advance_heard fitted lengths here found sinks phase heard performed
    · exact synced.advance_unheard fitted here found sinks heard performed
  | cutOff => exact absurd rfl uncut
  | @close seat s s' m'' here phase performed =>
    obtain ⟨place, found, fixture, story⟩ := tells.story here
    rw [(Place.of_fixture fixture).2.1] at performed ⊢
    rw [phase] at story
    generalize milestones log i = told at story
    cases story with
    | closing ending concludes =>
      obtain ⟨quiet, goesOn⟩ := concludes.of_perform? performed
      have passes : Passes m m'' i place.wiring.sinks [] none := by
        rcases goesOn with ⟨-, world, rfl⟩ | ⟨-, -, rfl⟩
        · exact .of_same rfl (fun _ => rfl) (.refl _) rfl
        · exact .of_release ..
      have kept := KeepsEnds.of_perform? performed
      rw [quiet]
      refine synced.advance_still here found rfl ((SameHouse.perform? performed).seats_setPhase ..)
        (passes.setPhase _) (kept.setPhase _) fun _ paced => ?_
      rw [phase] at paced
      cases paced with
      | closing tracks stops => exact .closing tracks stops
  | @conclude seat s verdict here phase ends =>
    obtain ⟨place, found, -⟩ := tells.story here
    obtain ⟨failure, same⟩ := exists_failure_recordVerdict (m.setPhase i .ended) seat.name verdict
    rw [same]
    refine synced.advance_still here found rfl rfl (.of_same rfl (fun _ => rfl) (.refl _) rfl)
      (.of_sameEnds fun _ => ⟨rfl, rfl⟩) fun _ paced => ?_
    rw [phase] at paced
    cases paced with
    | closing tracks stops => exact .ended tracks stops

/-- The pipes are in step when nobody has stepped yet. -/
theorem begin (a : Arrangement σ τ)
    (follows : ∀ place ∈ a.lineup.places, Follows a.act (a.impulse place) a.outlets place.wiring.sinks
      place.start (a.processor place) [] false) (world : World) (capacity : Nat) :
    a.Synced [] (fun _ => []) (a.lineup.begin world a.outlets a.input capacity) := by
  have fresh : ∀ k, (a.lineup.begin world a.outlets a.input capacity).pipeAt k = {} := by
    intro k
    rw [pipeAt, Lineup.begin, List.getElem?_replicate]
    split <;> rfl
  refine ⟨.refl _, rfl, fun {k place} _ _ => ?_, fun {i seat place} here found _ => ?_⟩
  · rw [fresh]
    rfl
  · rw [Lineup.begin, List.getElem?_map, found] at here
    cases here
    refine .command ⟨fun before _ => ?_, fun _ => ?_⟩ ⟨.refl, StreamFunction.nil _⟩
      (follows place (List.mem_of_getElem? found)) (fun stopped => absurd stopped Bool.false_ne_true)
      <;> rw [fresh]

/-- Every schedule that cuts no command off leaves the pipes in step with the stream functions. -/
theorem of_schedule (a : Arrangement σ τ)
    (follows : ∀ place ∈ a.lineup.places, Follows a.act (a.impulse place) a.outlets place.wiring.sinks
      place.start (a.processor place) [] false) {world : World} {capacity : Nat}
    (schedule : Schedule a.act (a.lineup.begin world a.outlets a.input capacity) log m)
    (uncut : ∀ i, (i, .cutOff) ∉ log) : ∃ taken, a.Synced log taken m := by
  induction schedule with
  | start => exact ⟨_, begin a follows world capacity⟩
  | @step log m i m' schedule step ih =>
    obtain ⟨taken, synced⟩ := ih fun i member => uncut i (List.mem_append_left _ member)
    refine synced.move (Lineup.fitted schedule) schedule.sameFrame.length_seats
      (Lineup.Tells.of_schedule schedule) (fun cut => ?_) (move_of_step? step)
    refine uncut i (List.mem_append_right _ ?_)
    rw [cut]
    exact List.mem_singleton_self _
  | elsewhere world schedule ih =>
    obtain ⟨taken, synced⟩ := ih uncut
    exact ⟨taken, synced.outlets, synced.supply, synced.pipes, fun here found heard =>
      imp_paced (synced.seats here found heard) id fun _ spent => spent⟩

end Synced

end Arrangement

/-- When all have ended, the output of the last command is what the stream functions give in full. -/
theorem Lineup.gives_of_schedule {σ τ : Type} {act : σ → Action σ}
    {impulse : Place σ → τ → Impulse τ} {l : Lineup σ} {processor : Place σ → τ} {outlets : Outlets}
    (follows : ∀ place ∈ l.places, Follows act (impulse place) outlets place.wiring.sinks place.start
      (processor place) [] false) {input : Bytes} (which : Output → Bool) {world : World}
    {capacity : Nat} {log : List (Nat × Deed)} {final : Ensemble σ}
    (schedule : Schedule act (l.begin world outlets input capacity) log final)
    (still : final.running = []) (uncut : ∀ i, (i, .cutOff) ∉ log) :
    (compose (l.functions impulse processor which)).gives ⟨input, true⟩
      ⟨through which (outputOf log l.inner.length), true⟩ := by
  let a : Arrangement σ τ := ⟨act, impulse, l, processor, which, outlets, input⟩
  obtain ⟨taken, synced⟩ := Arrangement.Synced.of_schedule a follows schedule uncut
  have seats := schedule.sameFrame.length_seats.trans l.length_places
  have here := List.getElem?_eq_getElem (l := final.seats) (i := l.inner.length) (by omega)
  have found : l.places[l.inner.length]? = some l.lastPlace := by
    rw [places, List.getElem?_append_right (by simp), length_innerPlaces, Nat.sub_self]
    rfl
  have paced := synced.seats here found fun dest piped =>
    absurd piped (Execution.get_sinks_lastWiring l.last.1 l.prepared dest)
  rw [phase_of_still still here] at paced
  cases paced with
  | ended tracks stops =>
    have whole : (l.functions impulse processor which).take (l.inner.length + 1) =
        l.functions impulse processor which :=
      List.take_of_length_le (Nat.le_of_eq length_functions)
    rw [← whole, compose_take_succ functions_of_last]
    refine ⟨_, tracks.reached, _, _, _, tracks.runs, List.prefix_rfl, fun _ => ?_⟩
    have stopped : impulse l.lastPlace _ = .stop := stops
    rw [stopped]
    rfl

/-- What a pipeline of sequential commands writes is what their stream functions give, one after the
other, whatever its pipes can hold and in whatever order the commands step until all have ended. So
any two ways of running it lead to the same output. Commands may end early or fail, and whoever has
lost its reader may do anything. -/
theorem Lineup.output_unique {σ τ : Type} {act : σ → Action σ} {impulse : Place σ → τ → Impulse τ}
    {l : Lineup σ} {processor : Place σ → τ} {outlets : Outlets}
    (follows : ∀ place ∈ l.places, Follows act (impulse place) outlets place.wiring.sinks place.start
      (processor place) [] false) {input : Bytes} (which : Output → Bool) {world world' : World}
    {capacity capacity' : Nat} {log log' : List (Nat × Deed)} {final final' : Ensemble σ}
    (schedule : Schedule act (l.begin world outlets input capacity) log final)
    (schedule' : Schedule act (l.begin world' outlets input capacity') log' final')
    (still : final.running = []) (still' : final'.running = [])
    (uncut : ∀ i, (i, .cutOff) ∉ log) (uncut' : ∀ i, (i, .cutOff) ∉ log') :
    through which (outputOf log l.inner.length) = through which (outputOf log' l.inner.length) ∧
    ∀ output, (compose (l.functions impulse processor which)).gives ⟨input, true⟩ ⟨output, true⟩ ↔
      output = through which (outputOf log l.inner.length) := by
  have given := gives_of_schedule follows which schedule still uncut
  have given' := gives_of_schedule follows which schedule' still' uncut'
  refine ⟨congrArg Flow.bytes (eq_of_closed given given' rfl rfl), fun output => ⟨fun same => ?_, ?_⟩⟩
  · exact congrArg Flow.bytes (eq_of_closed same given rfl rfl)
  · rintro rfl
    exact given

namespace Lineup

private theorem exists_run_of_flood (capacity written : Nat) (order : List Nat)
    (ran : ((floodIntoHead.begin { remotes := [] } .willing [] capacity).inOrder? Script.act []
      order).map (fun (log, m) => (m.running, log.any (·.2 matches .cutOff),
        (outputOf log 0).length, through (· = .out) (outputOf log 2))) =
      some ([], false, written, [120])) :
    ∃ log final, Schedule Script.act
        (floodIntoHead.begin { remotes := [] } .willing [] capacity) log final ∧
      final.running = [] ∧ (∀ i, (i, .cutOff) ∉ log) ∧ (outputOf log 0).length = written ∧
      through (· = .out) (outputOf log 2) = [120] := by
  obtain ⟨⟨log, final⟩, steps, shown⟩ := Option.map_eq_some_iff.mp ran
  simp only [Prod.mk.injEq] at shown
  obtain ⟨still, uncut, flooded, output⟩ := shown
  refine ⟨log, final, Schedule.start.inOrder? steps, still, fun i member => ?_, flooded, output⟩
  exact absurd rfl (List.any_eq_false.mp uncut _ member)

/-- In `flood 3 | cat | head 1`, `flood` writes two bytes before it loses its reader if pipes hold a
single byte, and all three if they hold more. Either way the output is the one byte that the stream
functions give. -/
theorem exists_runs_of_flood : ∃ log log' : List (Nat × Deed),
    (outputOf log 0).length = 2 ∧ (outputOf log' 0).length = 3 ∧
      through (· = .out) (outputOf log 2) = through (· = .out) (outputOf log' 2) ∧
      (compose (floodIntoHead.functions (fun place => Script.impulse .willing place.wiring.sinks)
        Place.start (· = .out))).gives ⟨[], true⟩ ⟨[120], true⟩ := by
  have plain : ∀ place ∈ floodIntoHead.places, place.start.Plain :=
    forall_start (List.forall_mem_cons.mpr ⟨Command.Probe.plain_flood _,
      List.forall_mem_singleton.mpr Task.plain_copy⟩) (Command.Probe.plain_head _)
  have steady : ∀ sink, Outlets.willing.flush sink = .ok () := by
    rintro (_ | _ | (_ | _) | _) <;> rfl
  obtain ⟨log, final, schedule, still, uncut, flooded, output⟩ :=
    exists_run_of_flood 1 2
      [1, 0, 1, 1, 1, 2, 2, 2, 2, 2, 2, 2, 2, 1, 1, 1, 0, 1, 1, 1, 1, 1, 1, 1, 0, 0, 0, 0, 0]
      (by decide +kernel)
  obtain ⟨log', final', schedule', still', uncut', flooded', output'⟩ :=
    exists_run_of_flood 65536 3
      [0, 0, 0, 0, 0, 0, 1, 1, 1, 1, 1, 1, 1, 1, 1, 1, 2, 2, 2, 2, 2, 2, 2, 2] (by decide +kernel)
  have unique := output_unique (follows_of_plain plain steady) (· = .out) schedule schedule' still
    still' uncut uncut'
  exact ⟨log, log', flooded, flooded', unique.1, (unique.2 _).mpr output.symm⟩

end Lineup

end StoreShell
