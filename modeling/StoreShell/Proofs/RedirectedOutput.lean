import StoreShell.Proofs.Courses
import StoreShell.Proofs.PipeAccounts
import StoreShell.Proofs.PipelineFailures
import StoreShell.Proofs.ScriptProcessors

/-! # Redirected output of pipelines

If one of the outputs of the last command of a pipeline is redirected to a file, then on every
course the file stays as it is until that command has ended, and what was written to the output is
there afterwards, all of it and nothing else, or the pipeline fails. That the last command was
cancelled is the only reason not to upload. Whether another command was cut off is not looked at,
although the last one may then have read less than it would have.
-/

namespace StoreShell

variable {σ : Type} {act : σ → Action σ} {remote : Nat} {path : String}

namespace Ensemble

variable {m m' : Ensemble σ} {log : List (Nat × Deed)} {i : Nat}

/-! ### What is kept for redirections -/

section Saved

variable {τ : Type} {sinks : PerOutput Sink} {action : Action τ} {next : τ}

private theorem outlets_read? {limit : Nat} {bytes : Bytes}
    (read : m.read? i limit = some (bytes, m')) : m'.outlets = m.outlets := by
  cases i with
  | zero =>
    cases read
    rfl
  | succ before =>
    obtain ⟨_, _, same⟩ := Option.map_eq_some_iff.mp read
    cases same
    rfl

private theorem saved_write? {dest : Output} {bytes : Bytes} {result : Except StreamError Nat}
    (which : Output) (wrote : m.write? i (sinks.get dest) bytes = some (result, m')) :
    (m'.outlets.saved.get which).bytes = (m.outlets.saved.get which).bytes ++
      through (fun dest => sinks.get dest = .saved which)
        ((Deed.ofWrite? dest bytes result).toList.flatMap Deed.writes) := by
  have elsewhere : sinks.get dest ≠ .saved which →
      (m'.outlets.saved.get which).bytes = (m.outlets.saved.get which).bytes →
      (m'.outlets.saved.get which).bytes = (m.outlets.saved.get which).bytes ++
        through (fun dest => sinks.get dest = .saved which)
          ((Deed.ofWrite? dest bytes result).toList.flatMap Deed.writes) := by
    intro other same
    cases result <;> simp [Deed.ofWrite?, Deed.writes, other, same, -List.map_take]
  cases sink : sinks.get dest with
  | pipe =>
    rw [sink] at wrote elsewhere
    obtain ⟨_, _, same⟩ := Option.map_eq_some_iff.mp wrote
    cases same
    exact elsewhere Sink.noConfusion rfl
  | discard =>
    rw [sink] at wrote elsewhere
    cases wrote
    exact elsewhere Sink.noConfusion rfl
  | caller other =>
    rw [sink] at wrote elsewhere
    cases wrote
    exact elsewhere Sink.noConfusion rfl
  | saved other =>
    rw [sink] at wrote elsewhere
    cases wrote
    by_cases own : other = which
    · subst own
      simp [Except.map, Deed.ofWrite?, Deed.writes, sink]
    · refine elsewhere (fun same => own (Sink.saved.inj same)) ?_
      rw [PerOutput.get_set_of_ne _ _ (Ne.symm own)]

/-- What is kept for the redirection of an output grows by what is written there. -/
theorem saved_of_perform? (which : Output)
    (performed : m.perform? i sinks action = some (next, m')) :
    (m'.outlets.saved.get which).bytes = (m.outlets.saved.get which).bytes ++
      through (fun dest => sinks.get dest = .saved which)
        ((m.wrote? i sinks action).toList.flatMap Deed.writes) := by
  have quiet : m'.outlets = m.outlets → m.wrote? i sinks action = none →
      (m'.outlets.saved.get which).bytes = (m.outlets.saved.get which).bytes ++
        through (fun dest => sinks.get dest = .saved which)
          ((m.wrote? i sinks action).toList.flatMap Deed.writes) := by
    intro same silent
    rw [same, silent]
    exact (List.append_nil _).symm
  cases action with
  | finish verdict => cases performed
  | pass t | flush dest t | saved which t =>
    cases performed
    exact quiet rfl rfl
  | read limit got =>
    obtain ⟨⟨bytes, _⟩, read, same⟩ := Option.map_eq_some_iff.mp performed
    cases same
    exact quiet (outlets_read? read) rfl
  | tryRead limit got dry =>
    simp only [perform?] at performed
    split at performed
    · next read =>
      cases performed
      exact quiet (outlets_read? read) rfl
    · cases performed
      exact quiet rfl rfl
  | write dest bytes took =>
    obtain ⟨_, wrote, same⟩ := Option.map_eq_some_iff.mp performed
    cases same
    simp only [wrote?, wrote, Option.bind_some]
    exact saved_write? which wrote
  | tryWrite dest bytes took full =>
    simp only [perform?] at performed
    split at performed
    · next wrote =>
      cases performed
      simp only [wrote?, wrote, Option.bind_some]
      exact saved_write? which wrote
    · next waits =>
      cases performed
      refine quiet rfl ?_
      rw [wrote?, waits]
      rfl
  | await input output t =>
    simp only [perform?] at performed
    split at performed
    · cases performed
      exact quiet rfl rfl
    · cases performed
  | release t =>
    cases performed
    exact quiet (outlets_release ..) rfl
  | effect due run =>
    obtain ⟨_, _, same⟩ := Option.map_eq_some_iff.mp performed
    cases same
    exact quiet rfl rfl

end Saved

end Ensemble

/-! ### The file that an output is redirected to -/

/-- How the uploads to a file and what it holds belong to the phase of the last seat and to the
milestones of its command. -/
inductive Standing (which : Output) (remote : Nat) (path : String) (append : Bool)
    (old : Option Bytes) (bytes : Bytes) :
    List Upload → Option (Option Bytes) → Phase σ → List Deed → Prop where
  | command {s} : Standing which remote path append old bytes [] (some old) (.command s) []
  | dropping {s deed} : deed.ending? = some (.error .cancelled) → s.Mute →
      Standing which remote path append old bytes [] (some old) (.closing s) [deed]
  | dropped {deed final} : deed.ending? = some (.error .cancelled) →
      Standing which remote path append old bytes [] (some old) .ended [deed, .concluded final]
  | closing {sent x s verdict} : verdict ≠ .error .cancelled →
      s.Settles remote path which bytes
        (fun final => Redirect.Outcome append old bytes (∃ failure, final = .error failure)) sent x →
      Standing which remote path append old bytes sent x (.closing s) [.ended verdict]
  | settled {sent x verdict final} : verdict ≠ .error .cancelled →
      Redirect.Outcome append old bytes (∃ failure, final = .error failure) sent x →
      Standing which remote path append old bytes sent x .ended [.ended verdict, .concluded final]

namespace Standing

variable {which : Output} {append : Bool} {old : Option Bytes} {bytes : Bytes} {sent : List Upload}
  {x : Option (Option Bytes)} {told : List Deed}

theorem of_command {s : σ}
    (standing : Standing which remote path append old bytes sent x (.command s) told) :
    told = [] ∧ sent = [] ∧ x = some old := by
  cases standing
  exact ⟨rfl, rfl, rfl⟩

/-- What is done after the end of the last command goes on, and with it the file. -/
theorem of_perform? {m m' : Ensemble σ} {i : Nat} {sinks : PerOutput Sink} {s s' : Script Verdict}
    (standing : Standing which remote path append old bytes sent (m.world.contents? remote path)
      (.closing s : Phase σ) told)
    (saved : (m.outlets.saved.get which).bytes = bytes)
    (performed : m.perform? i sinks s.act = some (s', m')) :
    Standing which remote path append old bytes (sent ++ (s.upload? remote path m.world).toList)
        (m'.world.contents? remote path) (.closing s' : Phase σ) told ∧
      m'.outlets = m.outlets ∧ m.wrote? i sinks s.act = none := by
  generalize here : m.world.contents? remote path = x at standing
  cases standing with
  | dropping ending mute =>
    obtain ⟨further, world, outlets, silent⟩ := mute.of_perform? performed
    rw [mute.upload?_eq_none, world, here]
    exact ⟨.dropping ending further, outlets, silent⟩
  | closing goesOn settles =>
    obtain ⟨further, outlets, silent⟩ := settles.of_perform? saved here performed
    exact ⟨.closing goesOn further, outlets, silent⟩

/-- What is done after the end of a command was done to the end, and the verdict is concluded. -/
theorem of_finish {s : Script Verdict} {verdict : Verdict}
    (standing : Standing which remote path append old bytes sent x (.closing s : Phase σ) told)
    (ends : s.act = .finish verdict) :
    Standing which remote path append old bytes sent x (.ended : Phase σ)
      (told ++ [.concluded verdict]) := by
  cases standing with
  | dropping ending mute => exact .dropped ending
  | closing goesOn settles => exact .settled goesOn (settles.of_finish ends)

end Standing

namespace Lineup

open Ensemble

/-- Whether one of the outputs of the last command is redirected to a file, and the other one is
not. -/
structure Redirects (l : Lineup σ) (which : Output) (remote : Nat) (path : String) (append : Bool) :
    Prop where
  here : ∃ cache, (which, .upload remote cache path append) ∈
    (Execution.lastWiring l.last.1 l.prepared).redirects
  apart : ∀ r ∈ (Execution.lastWiring l.last.1 l.prepared).redirects, r.1 ≠ which →
    r.2.Apart remote path

private theorem Redirects.exists_split {l : Lineup σ} {which : Output} {append : Bool}
    (redirects : l.Redirects which remote path append) : ∃ cache before after,
      (Execution.lastWiring l.last.1 l.prepared).redirects =
          before ++ (which, .upload remote cache path append) :: after ∧
        ∀ r ∈ before ++ after, r.2.Apart remote path := by
  obtain ⟨cache, member⟩ := redirects.here
  obtain ⟨before, after, split, others⟩ := Execution.exists_split_of_mem_redirects member
  refine ⟨cache, before, after, split, fun r among => redirects.apart r ?_ (others r among)⟩
  rw [split]
  rcases List.mem_append.mp among with front | back
  · exact List.mem_append_left _ front
  · exact List.mem_append_right _ (List.mem_cons_of_mem _ back)

/-- What the last command wrote to an output, in a log; what it wrote to the error output is among
it if that follows the output. -/
def written (l : Lineup σ) (which : Output) (log : List (Nat × Deed)) : Bytes :=
  through (fun dest => dest = which ∨ l.last.1.mergeErr) (outputOf log l.inner.length)

variable {l : Lineup σ} {which : Output} {append : Bool} {old : Option Bytes}
  {log : List (Nat × Deed)} {sent sent' : List Upload} {m m' : Ensemble σ} {i : Nat} {seat : Seat σ}
  {place : Place σ}

/-- A step adds to what was written if it is one of the last command. -/
theorem written_append_step (l : Lineup σ) (which : Output) (log : List (Nat × Deed)) (i : Nat)
    (deed : Option Deed) : l.written which (log ++ deed.toList.map (i, ·)) =
      l.written which log ++ if i = l.inner.length then
        through (fun dest => dest = which ∨ l.last.1.mergeErr) (deed.toList.flatMap Deed.writes)
      else [] := by
  rw [written, outputOf_append_step, through_append]
  by_cases last : i = l.inner.length
  · rw [if_pos last.symm, if_pos last]
    rfl
  · rw [if_neg (Ne.symm last), if_neg last]
    rfl

private theorem written_of_silent (l : Lineup σ) (which : Output) (log : List (Nat × Deed)) (i : Nat)
    {deed : Option Deed} (silent : deed.toList.flatMap Deed.writes = []) :
    l.written which (log ++ deed.toList.map (i, ·)) = l.written which log := by
  rw [written_append_step, silent, through_nil, ite_self, List.append_nil]

private theorem through_saved (redirects : l.Redirects which remote path append)
    (found : l.places[i]? = some place) (writes : List (Output × UInt8)) :
    through (fun dest => place.wiring.sinks.get dest = .saved which) writes =
      if i = l.inner.length then through (fun dest => dest = which ∨ l.last.1.mergeErr) writes
      else [] := by
  by_cases inside : i < l.inner.length
  · obtain ⟨s, wiring⟩ := wiring_of_inner found inside
    rw [if_neg (Nat.ne_of_lt inside), wiring]
    have elsewhere : ∀ dest, (Execution.innerWiring s).sinks.get dest ≠ .saved which := by
      intro dest
      cases dest with
      | out => exact Sink.noConfusion
      | err =>
        cases merged : s.mergeErr <;> simp [Execution.innerWiring, PerOutput.get, merged]
    simp [through, elsewhere]
  · obtain ⟨last, rfl⟩ := eq_lastPlace found inside
    obtain ⟨cache, member⟩ := redirects.here
    rw [if_pos last]
    have same := Execution.get_sinks_eq_saved_iff member
    simp only [lastPlace, same]

/-- Whether the file, the redirections and the failure of a pipeline stand as a log and the uploads
to the file tell. -/
structure Minds (l : Lineup σ) (which : Output) (remote : Nat) (path : String) (append : Bool)
    (old : Option Bytes) (log : List (Nat × Deed)) (sent : List Upload) (m : Ensemble σ) :
    Prop where
  saved : (m.outlets.saved.get which).bytes = l.written which log
  inner : ∀ {i seat s}, m.seats[i]? = some seat → i < l.inner.length → seat.phase = .closing s →
    s.Mute
  last : ∀ {seat}, m.seats[l.inner.length]? = some seat →
    Standing which remote path append old (l.written which log) sent
      (m.world.contents? remote path) seat.phase (milestones log l.inner.length)
  failure : ∀ {failure}, (l.inner.length, .concluded (.error failure)) ∈ log → m.failure.isSome

namespace Minds

private theorem advance (minds : l.Minds which remote path append old log sent m)
    (deed : Option Deed) (here : m.seats[i]? = some seat) (found : l.places[i]? = some place)
    {phase : Phase σ} (seats : m'.seats = (m.setPhase i phase).seats)
    (saved : (m'.outlets.saved.get which).bytes =
      l.written which (log ++ deed.toList.map (i, ·)))
    (failed : m.failure.isSome → m'.failure.isSome)
    (fails : ∀ failure, deed = some (.concluded (.error failure)) → m'.failure.isSome)
    (inner : i < l.inner.length → (∀ s, phase = .closing s → s.Mute) ∧ sent' = sent ∧
      m'.world.contents? remote path = m.world.contents? remote path)
    (last : i = l.inner.length → Standing which remote path append old
      (l.written which (log ++ deed.toList.map (i, ·))) sent' (m'.world.contents? remote path) phase
      (milestones log i ++ deed.toList.filter Deed.isMilestone)) :
    l.Minds which remote path append old (log ++ deed.toList.map (i, ·)) sent' m' := by
  have within := (List.getElem?_eq_some_iff.mp found).1
  rw [length_places] at within
  refine ⟨saved, fun {j seat' s} there inside closing => ?_, fun {seat'} there => ?_,
    fun {failure} member => ?_⟩
  · by_cases same : j = i
    · subst same
      rw [seats, getElem?_setPhase_self, here] at there
      cases there
      exact (inner inside).1 s closing
    · rw [seats, getElem?_setPhase_of_ne same] at there
      exact minds.inner there inside closing
  · rw [milestones_append_step]
    by_cases same : i = l.inner.length
    · subst same
      rw [seats, getElem?_setPhase_self, here] at there
      cases there
      rw [if_pos rfl]
      exact last rfl
    · obtain ⟨-, rfl, kept⟩ := inner (by omega)
      rw [seats, getElem?_setPhase_of_ne (Ne.symm same)] at there
      rw [if_neg (Ne.symm same), List.append_nil, written_append_step, if_neg same,
        List.append_nil, kept]
      exact minds.last there
  · rcases List.mem_append.mp member with before | now
    · exact failed (minds.failure before)
    · obtain ⟨told, step, same⟩ := List.mem_map.mp now
      cases same
      exact fails failure (Option.mem_toList.mp step)

/-- As long as the last command goes on, nothing was done to the file. -/
theorem of_command (minds : l.Minds which remote path append old log sent m)
    (here : m.seats[l.inner.length]? = some seat) {s : σ} (phase : seat.phase = .command s) :
    milestones log l.inner.length = [] ∧ sent = [] ∧ m.world.contents? remote path = some old := by
  have standing := minds.last here
  rw [phase] at standing
  exact standing.of_command

/-- The command in a seat is cut off, and nothing more is done to the file. -/
theorem drop (minds : l.Minds which remote path append old log sent m)
    (here : m.seats[i]? = some seat) {s : σ} (phase : seat.phase = .command s)
    (found : l.places[i]? = some place) (fixture : seat.fixture = place.seat.fixture) :
    l.Minds which remote path append old (log ++ [(i, .cutOff)]) sent (m.cutOff i seat) := by
  obtain ⟨-, -, closing⟩ := Place.of_fixture fixture
  have mute : (seat.closing (.error .cancelled)).Mute :=
    closing ▸ Execution.mute_closing (Or.inl rfl)
  refine minds.advance (some .cutOff) here found rfl ?_ id (fun _ told => by cases told)
    (fun _ => ⟨fun s same => ?_, rfl, rfl⟩) fun last => ?_
  · exact minds.saved.trans (l.written_of_silent which log i rfl).symm
  · cases same
    exact mute
  · subst last
    obtain ⟨told, unsent, kept⟩ := minds.of_command here phase
    change Standing _ _ _ _ _ _ _ (m.world.contents? remote path) _ _
    rw [told, unsent, kept]
    exact .dropping rfl mute

/-- A command ends by itself, and what is done then belongs to its wiring. -/
theorem finish (minds : l.Minds which remote path append old log sent m)
    (redirects : l.Redirects which remote path append)
    (here : m.seats[i]? = some seat) {s : σ} (phase : seat.phase = .command s)
    (found : l.places[i]? = some place) (fixture : seat.fixture = place.seat.fixture)
    (verdict : Verdict) :
    l.Minds which remote path append old (log ++ [(i, .ended verdict)]) sent
      (m.setPhase i (.closing (seat.closing verdict))) := by
  obtain ⟨-, -, closing⟩ := Place.of_fixture fixture
  refine minds.advance (some (.ended verdict)) here found rfl ?_ id
    (fun _ told => by cases told) (fun inside => ⟨fun s same => ?_, rfl, rfl⟩) fun last => ?_
  · exact minds.saved.trans (l.written_of_silent which log i rfl).symm
  · cases same
    obtain ⟨s, wiring⟩ := wiring_of_inner found inside
    rw [closing, wiring]
    exact Execution.mute_closing (Or.inr rfl)
  · subst last
    obtain ⟨told, unsent, kept⟩ := minds.of_command here phase
    obtain ⟨-, rfl⟩ := eq_lastPlace found (Nat.lt_irrefl _)
    change Standing _ _ _ _ _ _ _ (m.world.contents? remote path) _ _
    rw [told, unsent, kept, closing]
    by_cases cancelled : verdict = .error .cancelled
    · subst cancelled
      exact .dropping rfl (Execution.mute_closing (Or.inl rfl))
    · obtain ⟨cache, before, after, split, apart⟩ := redirects.exists_split
      exact .closing cancelled (Execution.settles_closing split apart cancelled
        (Execution.get_sinks_lastWiring _ _ .out))

/-- A command goes on without touching the file; what it writes is kept. -/
theorem go (minds : l.Minds which remote path append old log sent m)
    (redirects : l.Redirects which remote path append)
    (here : m.seats[i]? = some seat) {s s' : σ} (phase : seat.phase = .command s)
    (found : l.places[i]? = some place) (fixture : seat.fixture = place.seat.fixture)
    {action : Action σ} (performed : m.perform? i seat.sinks action = some (s', m'))
    (spares : m'.world.contents? remote path = m.world.contents? remote path) :
    l.Minds which remote path append old
      (log ++ (m.wrote? i seat.sinks action).toList.map (i, ·)) sent
      (m'.setPhase i (.command s')) := by
  have same := SameHouse.perform? performed
  have saved := saved_of_perform? which performed
  rw [(Place.of_fixture fixture).2.1] at saved ⊢
  rw [through_saved redirects found, minds.saved, ← written_append_step] at saved
  refine minds.advance _ here found (same.seats_setPhase ..) saved ?_ (fun failure told => ?_)
    (fun _ => ⟨nofun, rfl, spares⟩) fun last => ?_
  · intro failed
    exact same.failure.symm ▸ failed
  · obtain ⟨_, _, wrote⟩ := Tells.eq_wrote_of_wrote? told
    cases wrote
  · subst last
    obtain ⟨told, unsent, kept⟩ := minds.of_command here phase
    change Standing _ _ _ _ _ _ _ (m'.world.contents? remote path) _ _
    rw [unsent, spares, kept, Tells.filter_wrote?, told]
    exact .command

/-- What is done after the end of a command goes on. -/
theorem close (minds : l.Minds which remote path append old log sent m)
    (here : m.seats[i]? = some seat) {s s' : Script Verdict} (phase : seat.phase = .closing s)
    (found : l.places[i]? = some place)
    (performed : m.perform? i seat.sinks s.act = some (s', m')) :
    l.Minds which remote path append old
      (log ++ (m.wrote? i seat.sinks s.act).toList.map (i, ·))
      (sent ++ (s.upload? remote path m.world).toList) (m'.setPhase i (.closing s')) := by
  have same := SameHouse.perform? performed
  have failed : m.failure.isSome → m'.failure.isSome := fun failed => same.failure.symm ▸ failed
  by_cases inside : i < l.inner.length
  · have mute := minds.inner here inside phase
    obtain ⟨further, world, outlets, silent⟩ := mute.of_perform? performed
    rw [silent, mute.upload?_eq_none, Option.toList_none, Option.toList_none, List.append_nil]
    refine minds.advance none here found (same.seats_setPhase ..) ?_ failed nofun
      (fun _ => ⟨?_, rfl, ?_⟩) fun last => absurd inside (by omega)
    · rw [l.written_of_silent which log i rfl, ← minds.saved]
      exact congrArg (fun o => (o.saved.get which).bytes) outlets
    · intro s closing
      cases closing
      exact further
    · exact congrArg (World.contents? · remote path) world
  · obtain ⟨rfl, -⟩ := eq_lastPlace found inside
    have standing := minds.last here
    rw [phase] at standing
    obtain ⟨standing, outlets, silent⟩ := standing.of_perform? minds.saved performed
    rw [silent]
    refine minds.advance none here found (same.seats_setPhase ..) ?_ failed nofun
      (fun inside => absurd inside (by omega)) fun _ => ?_
    · rw [l.written_of_silent which log _ rfl, ← minds.saved]
      exact congrArg (fun o => (o.saved.get which).bytes) outlets
    · rw [l.written_of_silent which log _ rfl, Option.toList_none, List.filter_nil, List.append_nil]
      exact standing

private theorem isSome_failure_recordVerdict (m : Ensemble σ) (name : String) (verdict : Verdict) :
    (m.recordVerdict name verdict).failure.isSome ↔
      m.failure.isSome ∨ ∃ failure, verdict = .error failure := by
  cases failed : m.failure <;> cases verdict <;> simp [recordVerdict, failed]

/-- The verdict on a command is known. -/
theorem conclude (minds : l.Minds which remote path append old log sent m)
    (here : m.seats[i]? = some seat) {s : Script Verdict} (phase : seat.phase = .closing s)
    (found : l.places[i]? = some place) {verdict : Verdict} (ends : s.act = .finish verdict) :
    l.Minds which remote path append old (log ++ [(i, .concluded verdict)]) sent
      ((m.setPhase i .ended).recordVerdict seat.name verdict) := by
  obtain ⟨failure, same⟩ := exists_failure_recordVerdict (m.setPhase i .ended) seat.name verdict
  refine minds.advance (some (.concluded verdict)) here found (seats_recordVerdict ..) ?_ ?_
    (fun failure told => ?_) (fun _ => ⟨nofun, rfl, ?_⟩) fun last => ?_
  · rw [l.written_of_silent which log i rfl, same]
    exact minds.saved
  · exact fun failed => (isSome_failure_recordVerdict ..).mpr (Or.inl failed)
  · cases told
    exact (isSome_failure_recordVerdict ..).mpr (Or.inr ⟨failure, rfl⟩)
  · rw [same]
    rfl
  · subst last
    have standing := minds.last here
    rw [phase] at standing
    rw [l.written_of_silent which log _ rfl, same]
    exact standing.of_finish ends

/-- Every step leaves things as is told, if the command in the seat spares the file. -/
theorem move (minds : l.Minds which remote path append old log sent m)
    (redirects : l.Redirects which remote path append)
    (places : ∀ {i : Nat} {seat : Seat σ}, m.seats[i]? = some seat →
      ∃ place, l.places[i]? = some place ∧ seat.fixture = place.seat.fixture)
    {deed : Option Deed} (move : Move act m i deed m')
    (spares : m.InCommand i → m'.world.contents? remote path = m.world.contents? remote path) :
    l.Minds which remote path append old (log ++ deed.toList.map (i, ·))
      (sent ++ (m.upload? remote path i).toList) m' := by
  cases move with
  | finish here phase ends =>
    rw [upload?_of_command here phase, Option.toList_none, List.append_nil]
    obtain ⟨place, found, fixture⟩ := places here
    exact minds.finish redirects here phase found fixture _
  | go here phase performed =>
    rw [upload?_of_command here phase, Option.toList_none, List.append_nil]
    obtain ⟨place, found, fixture⟩ := places here
    exact minds.go redirects here phase found fixture performed (spares ⟨_, _, here, phase⟩)
  | cutOff here phase waits cancelled =>
    rw [upload?_of_command here phase, Option.toList_none, List.append_nil]
    obtain ⟨place, found, fixture⟩ := places here
    exact minds.drop here phase found fixture
  | close here phase performed =>
    rw [upload?_of_closing here phase]
    obtain ⟨place, found, -⟩ := places here
    exact minds.close here phase found performed
  | conclude here phase ends =>
    rw [upload?_of_closing here phase, Script.upload?_of_finish ends, Option.toList_none,
      List.append_nil]
    obtain ⟨place, found, -⟩ := places here
    exact minds.conclude here phase found ends

/-- On every course things stand as is told. -/
theorem of_course {world : World} {outlets : Outlets} {input : Bytes} {capacity : Nat}
    (redirects : l.Redirects which remote path append)
    (before : world.contents? remote path = some old)
    (fresh : (outlets.saved.get which).bytes = [])
    (course : Course act remote path (l.begin world outlets input capacity) log sent m) :
    l.Minds which remote path append old log sent m := by
  induction course with
  | start =>
    refine ⟨fresh, fun {i seat s} here _ closing => ?_, fun {seat} here => ?_, nofun⟩
    · rw [Lineup.begin, List.getElem?_map] at here
      obtain ⟨place, -, rfl⟩ := Option.map_eq_some_iff.mp here
      cases closing
    · rw [Lineup.begin, List.getElem?_map] at here
      obtain ⟨place, -, rfl⟩ := Option.map_eq_some_iff.mp here
      have kept : (l.begin world outlets input capacity).world.contents? remote path = some old :=
        before
      rw [kept]
      exact .command
  | step course step spares ih =>
    exact ih.move redirects course.sameFrame.exists_place (move_of_step? step) spares
  | cutOff course _ here phase ih =>
    obtain ⟨place, found, fixture⟩ := course.sameFrame.exists_place here
    exact ih.drop here phase found fixture
  | elsewhere world _ same ih =>
    refine ⟨ih.saved, ih.inner, fun here => ?_, ih.failure⟩
    change Standing _ _ _ _ _ _ _ (world.contents? remote path) _ _
    rw [same]
    exact ih.last here

end Minds

/-- The last command has its seat, and the file stands as its milestones tell. -/
theorem exists_standing {world : World} {outlets : Outlets} {input : Bytes} {capacity : Nat}
    (redirects : l.Redirects which remote path append)
    (before : world.contents? remote path = some old)
    (fresh : (outlets.saved.get which).bytes = [])
    (course : Course act remote path (l.begin world outlets input capacity) log sent m) :
    ∃ seat, m.seats[l.inner.length]? = some seat ∧
      Standing which remote path append old (l.written which log) sent
        (m.world.contents? remote path) seat.phase (milestones log l.inner.length) := by
  have seats := course.sameFrame.length_seats.trans l.length_places
  have here := List.getElem?_eq_getElem (l := m.seats) (i := l.inner.length) (by omega)
  exact ⟨_, here, (Minds.of_course redirects before fresh course).last here⟩

private theorem spares_of_plain {s : Script Verdict} (plain : s.Plain) : s.Spares remote path := by
  induction plain with
  | done => exact .done
  | write _ ih => exact .write trivial ih
  | flush _ ih => exact .flush trivial ih
  | copy fails _ ih =>
    refine .copy trivial fun result => ?_
    cases result with
    | error e =>
      obtain ⟨failure, ends⟩ := fails e
      rw [ends]
      exact .done
    | ok _ => exact ih
  | collect _ ih => exact .collect trivial ih

private theorem sparing_begin {l : Lineup (Script Verdict)}
    (plain : ∀ place ∈ l.places, place.start.Plain) (world : World) (outlets : Outlets)
    (input : Bytes) (capacity : Nat) :
    (l.begin world outlets input capacity).Sparing remote path := by
  intro i seat s here command
  rw [Lineup.begin, List.getElem?_map] at here
  obtain ⟨place, found, rfl⟩ := Option.map_eq_some_iff.mp here
  cases command
  exact spares_of_plain (plain place (List.mem_of_getElem? found))

def worldWithFile : World := Trial.start { objects := [("/out", some [111, 108, 100])] } {} none none

private theorem contents?_worldWithFile :
    worldWithFile.contents? 0 "/out" = some (some [111, 108, 100]) := by
  decide +kernel

/-- As long as the last command of a pipeline has not ended, or if it was cancelled, nothing is
uploaded to a file that its output is redirected to and the file is as it was before, whatever
becomes of the other commands, in whatever order all of them step, and whoever is cut off. -/
theorem contents?_of_course {act : σ → Action σ} {l : Lineup σ} {which : Output} {remote : Nat}
    {path : String} {append : Bool} {old : Option Bytes} {world : World} {outlets : Outlets}
    {input : Bytes} {capacity : Nat} {log : List (Nat × Deed)} {sent : List Upload} {m : Ensemble σ}
    (redirects : l.Redirects which remote path append)
    (before : world.contents? remote path = some old)
    (fresh : (outlets.saved.get which).bytes = [])
    (course : Course act remote path (l.begin world outlets input capacity) log sent m)
    (cancelled : ∀ verdict, (l.inner.length, .ended verdict) ∈ log → verdict = .error .cancelled) :
    sent = [] ∧ m.world.contents? remote path = some old := by
  obtain ⟨seat, -, standing⟩ := exists_standing redirects before fresh course
  have ends : ∀ {verdict told}, milestones log l.inner.length = .ended verdict :: told →
      verdict = .error .cancelled := by
    intro verdict told same
    have member : .ended verdict ∈ milestones log l.inner.length := same ▸ List.mem_cons_self ..
    exact cancelled verdict (mem_milestones.mp member).1
  generalize seat.phase = phase at standing
  generalize told : milestones log l.inner.length = deeds at standing
  generalize m.world.contents? remote path = x at standing ⊢
  cases standing with
  | command | dropping | dropped => exact ⟨rfl, rfl⟩
  | closing goesOn | settled goesOn => exact absurd (ends told) goesOn

def floodIntoFile : Lineup (Script Verdict) where
  inner := [({ name := "flood" }, (Command.Probe.flood ["3"]).toScript)]
  last := ({ name := "cat" }, (Command.cat []).toScript)
  prepared := ⟨[], some (.upload 0 0 "/out" false), none, [["3"], []]⟩

private theorem redirects_floodIntoFile : floodIntoFile.Redirects .out 0 "/out" false where
  here := ⟨0, List.mem_singleton_self _⟩
  apart := fun _ member other => absurd (congrArg Prod.fst (List.mem_singleton.mp member)) other

/-- The seats whose commands were cut off in a log. -/
def cutOffsIn (log : List (Nat × Deed)) : List Nat :=
  log.filterMap fun (i, deed) =>
    match deed with
    | .cutOff => some i
    | _ => none

private theorem cutOff_of_mem_cutOffsIn (member : i ∈ cutOffsIn log) : (i, Deed.cutOff) ∈ log := by
  obtain ⟨⟨j, deed⟩, member, told⟩ := List.mem_filterMap.mp member
  cases deed with
  | cutOff =>
    cases told
    exact member
  | wrote | ended | concluded => cases told

/-- Of `flood 3 | cat > /out` with a pipe of a single byte, `flood` has written that byte, the line
is cancelled, and `flood` is cut off. -/
def floodCutOff? : Option (List (Nat × Deed) × Ensemble (Script Verdict)) :=
  ((floodIntoFile.begin worldWithFile .willing [] 1).inOrder? Script.act [] [0]).bind
    fun (log, m) =>
      { m with world := { m.world with cancelled := true } }.inOrder? Script.act log [0, 0, 0, 0]

/-- When `flood` is cut off in `flood 3 | cat > /out`, the file is as it was. But `cat`, which was
not waiting, comes to the end of its input as it would have otherwise, and ends by itself: the file
is overwritten with the single byte that `flood` had written by then. -/
theorem exists_truncated : ∃ log sent m log' sent' final,
    Course Script.act 0 "/out" (floodIntoFile.begin worldWithFile .willing [] 1) log sent m ∧
      (0, Deed.cutOff) ∈ log ∧ m.world.contents? 0 "/out" = some (some [111, 108, 100]) ∧
      m.inOrder? Script.act log (List.replicate 13 1) = some (log', final) ∧
      Course Script.act 0 "/out" (floodIntoFile.begin worldWithFile .willing [] 1) log' sent' final ∧
      final.running = [] ∧ final.world.contents? 0 "/out" = some (some [120]) := by
  have evaluated : (floodCutOff?.bind fun cut =>
      (cut.2.inOrder? Script.act cut.1 (List.replicate 13 1)).map fun ends =>
        (cutOffsIn cut.1, (milestones cut.1 1).isEmpty, ends.2.running,
          decide (ends.2.world.contents? 0 "/out" = some (some [120])))) =
      some ([0], true, [], true) := by
    decide +kernel
  obtain ⟨⟨log, m⟩, cut, evaluated⟩ := Option.bind_eq_some_iff.mp evaluated
  obtain ⟨⟨log', final⟩, steps, shown⟩ := Option.map_eq_some_iff.mp evaluated
  simp only [Prod.mk.injEq, decide_eq_true_iff, List.isEmpty_iff] at shown
  obtain ⟨cutOffs, nothing, still, contents⟩ := shown
  obtain ⟨⟨log₁, m₁⟩, first, second⟩ := Option.bind_eq_some_iff.mp cut
  have plain : ∀ place ∈ floodIntoFile.places, place.start.Plain :=
    forall_start (List.forall_mem_singleton.mpr (Command.Probe.plain_flood _)) Task.plain_copy
  obtain ⟨⟨sent₁, course⟩, sparing⟩ :=
    Course.start.inOrder? (sparing_begin plain worldWithFile .willing [] 1) first
  have cancelled : Course Script.act 0 "/out" (floodIntoFile.begin worldWithFile .willing [] 1) log₁
      sent₁ { m₁ with world := { m₁.world with cancelled := true } } := .elsewhere _ course rfl
  obtain ⟨⟨sent, course⟩, sparing⟩ := cancelled.inOrder? sparing second
  obtain ⟨⟨sent', further⟩, -⟩ := course.inOrder? sparing steps
  have kept : m.world.contents? 0 "/out" = some (some [111, 108, 100]) := by
    refine (contents?_of_course redirects_floodIntoFile contents?_worldWithFile rfl course ?_).2
    intro verdict ended
    have told : .ended verdict ∈ milestones log 1 := mem_milestones.mpr ⟨ended, rfl⟩
    rw [nothing] at told
    cases told
  have cutOff : (0, Deed.cutOff) ∈ log :=
    cutOff_of_mem_cutOffsIn (by rw [cutOffs]; exact List.mem_singleton_self _)
  exact ⟨log, sent, m, log', sent', final, course, cutOff, kept, steps, further, still, contents⟩

/-- An output of the last command of a pipeline that is redirected to a file is stored exactly,
whatever the commands write in whatever order, as long as nobody else changes the file. Until the
last command has ended, nothing is uploaded. If it ends by itself and was not cancelled, then once
all has ended there was one upload, of what the command wrote to the output. If that succeeded, the
file holds what was written, behind what it held before if the redirection appends; if it failed,
the file is as it was before and the pipeline fails. -/
theorem stored_of_course {act : σ → Action σ} {l : Lineup σ} {which : Output} {remote : Nat}
    {path : String} {append : Bool} {old : Option Bytes} {world : World} {outlets : Outlets}
    {input : Bytes} {capacity : Nat} {log : List (Nat × Deed)} {sent : List Upload} {m : Ensemble σ}
    (redirects : l.Redirects which remote path append)
    (before : world.contents? remote path = some old)
    (fresh : (outlets.saved.get which).bytes = [])
    (course : Course act remote path (l.begin world outlets input capacity) log sent m) :
    ((∀ verdict, (l.inner.length, .ended verdict) ∉ log) →
        sent = [] ∧ m.world.contents? remote path = some old) ∧
      ∀ verdict, (l.inner.length, .ended verdict) ∈ log → verdict ≠ .error .cancelled →
        m.running = [] → ∃ answer, sent = [⟨l.written which log, append, answer⟩] ∧
          match answer with
          | .ok _ => m.world.contents? remote path =
              some (some ((if append then old.getD [] else []) ++ l.written which log))
          | .error _ => m.world.contents? remote path = some old ∧ m.failure.isSome := by
  constructor
  · exact fun going => contents?_of_course redirects before fresh course fun verdict ended =>
      absurd ended (going verdict)
  · intro verdict ended goesOn still
    have minds := Minds.of_course redirects before fresh course
    obtain ⟨seat, here, standing⟩ := exists_standing redirects before fresh course
    have member : .ended verdict ∈ milestones log l.inner.length := mem_milestones.mpr ⟨ended, rfl⟩
    have concluded : ∀ {deed failure},
        milestones log l.inner.length = [deed, .concluded (.error failure)] → m.failure.isSome := by
      intro deed failure same
      have member : .concluded (.error failure) ∈ milestones log l.inner.length := by simp [same]
      exact minds.failure (mem_milestones.mp member).1
    rw [phase_of_still still here] at standing
    generalize milestones log l.inner.length = deeds at standing member concluded
    generalize m.world.contents? remote path = x at standing ⊢
    cases standing with
    | dropped ending =>
      rcases List.mem_pair.mp member with rfl | final
      · exact absurd (Option.some.inj ending) goesOn
      · cases final
    | settled _ outcome =>
      refine outcome.imp fun failed => ?_
      obtain ⟨failure, rfl⟩ := failed
      exact concluded rfl

def noisyIntoFile : Lineup (Script Verdict) where
  inner := []
  last := ({ name := "noisy", mergeErr := true }, (Command.Probe.noisy []).toScript)
  prepared := ⟨[], some (.upload 0 0 "/out" true), none, [[]]⟩

private theorem redirects_noisyIntoFile : noisyIntoFile.Redirects .out 0 "/out" true where
  here := ⟨0, List.mem_singleton_self _⟩
  apart := fun _ member other => absurd (congrArg Prod.fst (List.mem_singleton.mp member)) other

/-- Although `noisy` fails, what it wrote to both outputs stands behind `old` in the file. -/
theorem exists_appended : ∃ log sent final,
    Course Script.act 0 "/out" (noisyIntoFile.begin worldWithFile .willing [] 65536) log sent
        final ∧
      (0, Deed.ended (.error (.exitStatus 3))) ∈ log ∧ final.running = [] ∧
      final.world.contents? 0 "/out" = some (some (Text.Utf8.encode "oldout\nerr\n")) := by
  have evaluated : (((noisyIntoFile.begin worldWithFile .willing [] 65536).inOrder? Script.act []
      (List.replicate 11 0)).map fun (log, final) =>
        (failuresIn log, noisyIntoFile.written .out log, final.running,
          decide (final.world.contents? 0 "/out" = some (some [111, 108, 100])))) =
      some ([(0, .exitStatus 3)], Text.Utf8.encode "out\nerr\n", [], false) := by
    decide +kernel
  obtain ⟨⟨log, final⟩, steps, shown⟩ := Option.map_eq_some_iff.mp evaluated
  simp only [Prod.mk.injEq, decide_eq_false_iff_not] at shown
  obtain ⟨failures, written, still, changed⟩ := shown
  have plain : ∀ place ∈ noisyIntoFile.places, place.start.Plain := by
    refine List.forall_mem_singleton.mpr (Task.plain_bind (Task.plain_write ..) fun _ => ?_)
    exact Task.plain_bind (Task.plain_write ..) fun _ => .done
  obtain ⟨⟨sent, course⟩, -⟩ :=
    Course.start.inOrder? (sparing_begin plain worldWithFile .willing [] 65536) steps
  have ended : (0, Deed.ended (.error (.exitStatus 3))) ∈ log :=
    ended_of_mem_failuresIn (by rw [failures]; exact List.mem_singleton_self _)
  obtain ⟨answer, -, stored⟩ :=
    (stored_of_course redirects_noisyIntoFile contents?_worldWithFile rfl course).2 _ ended (by simp)
      still
  refine ⟨log, sent, final, course, ended, still, ?_⟩
  cases answer with
  | ok _ =>
    rw [stored, written]
    decide +kernel
  | error _ => exact absurd stored.1 changed

end Lineup

end StoreShell
