import StoreShell.Proofs.SequentialCommands

/-! # Scripts as sequential commands

A script that uses nothing but its streams is sequential: it follows the processor that takes its
input byte by byte where the script reads pieces, and writes byte by byte where the script writes as
much as there is room for. Copying is where this has to be shown, since it reads ahead of what it can
write. A copy whose output cannot be flushed ends as soon as its input is dry for a moment, so it is
sequential only if flushing does not fail.
-/

namespace StoreShell

namespace Script

/-- What the processor of a script does next, by what its outputs answer. -/
def impulse (o : Outlets) (sinks : PerOutput Sink) :
    Script Verdict → Impulse (Script Verdict)
  | .write dest bytes next =>
    match bytes with
    | [] => .skip (next (.ok ()))
    | byte :: rest =>
      match (o.write (sinks.get dest) [byte]).1 with
      | .ok _ => .put dest byte (.write dest rest next)
      | .error e => .skip (next (.error e))
  | .flush dest next => .skip (next (o.flush (sinks.get dest)))
  | .copy c next =>
    match c.held with
    | [] => .get (fun byte => .copy { held := [byte] } next) (.flush .out next)
    | byte :: rest =>
      match (o.write (sinks.get .out) [byte]).1 with
      | .ok _ => .put .out byte (.copy { held := rest } next)
      | .error e => .skip (next (.error e))
  | .collect room sofar next =>
    if room = some 0 then .skip (next sofar.bytes)
    else .get (fun byte => .collect (room.map (· - 1)) (sofar.push [byte]) next) (next sofar.bytes)
  | _ => .stop

/-- Scripts that use nothing but their streams, and fail if they cannot go on copying. -/
inductive Plain {α : Type} : Script (Except Failure α) → Prop where
  | done {result} : Plain (.done result)
  | write {dest bytes next} : (∀ a, Plain (next a)) → Plain (.write dest bytes next)
  | flush {dest next} : (∀ a, Plain (next a)) → Plain (.flush dest next)
  | copy {next} : (∀ e, ∃ failure, next (.error e) = .done (.error failure)) →
      Plain (next (.ok ())) → Plain (.copy {} next)
  | collect {room next} : (∀ bytes, Plain (next bytes)) → Plain (.collect room {} next)

/-- Going on unless there is a failure leaves a script plain. -/
theorem Plain.bind {α β : Type} {s : Script (Except Failure α)} (plain : s.Plain)
    {f : Except Failure α → Script (Except Failure β)} (further : ∀ a, (f (.ok a)).Plain)
    (fails : ∀ failure, f (.error failure) = .done (.error failure)) : (s.bind f).Plain := by
  induction plain with
  | @done result =>
    cases result with
    | ok a => exact further a
    | error failure =>
      rw [Script.bind, fails]
      exact .done
  | write _ ih => exact .write ih
  | flush _ ih => exact .flush ih
  | copy stops _ ih =>
    refine .copy (fun e => ?_) ih
    obtain ⟨failure, same⟩ := stops e
    exact ⟨failure, by rw [same, Script.bind, fails]⟩
  | collect _ ih => exact .collect ih

/-- How a script and its processor may stand to each other when the processor has caught up: when
copying, it is behind by what is held. -/
inductive Pace (closed : Bool) : Script Verdict → Script Verdict → Bytes → Prop where
  | done {verdict ahead} : Pace closed (.done verdict) (.done verdict) ahead
  | plain {s} : s.Plain → Pace closed s s []
  | copying {c next} : (c.phase = .finish → c.held = [] ∧ c.ended) →
      (c.phase = .topUp → c.canTake) → (c.ended → closed) →
      (∀ e, ∃ failure, next (.error e) = .done (.error failure)) → (next (.ok ())).Plain →
      Pace closed (.copy c next) (.copy {} next) c.held
  | collecting {room sofar sofar' next} : sofar'.bytes = sofar.bytes →
      (∀ bytes, (next bytes).Plain) →
      Pace closed (.collect room sofar next) (.collect room sofar' next) []

/-- A script is in tune with its processor if that one can catch up without writing. -/
def InTune (o : Outlets) (sinks : PerOutput Sink) (s x : Script Verdict) (ahead : Bytes)
    (closed : Bool) : Prop :=
  ∃ y rest, Runs (impulse o sinks) closed x ahead [] y rest ∧ Pace closed s y rest

variable {o : Outlets} {sinks : PerOutput Sink} {closed : Bool} {ahead : Bytes}

theorem Pace.inTune {s x : Script Verdict} (pace : Pace closed s x ahead) :
    InTune o sinks s x ahead closed := ⟨x, ahead, .refl, pace⟩

/-! ### What processors do -/

private theorem fst_write_eq (o : Outlets) (sink : Sink) (bytes more : Bytes) :
    (o.write sink bytes).1 = (o.write sink more).1 := by
  cases sink with
  | discard | pipe | saved _ => rfl
  | caller which =>
    have same : ∀ s : CallerStream, (s.write bytes).1 = (s.write more).1 := by
      rintro ⟨name, refuses, received⟩
      cases refuses <;> rfl
    exact same _

/-- A processor writes whatever is taken. -/
theorem runs_write {dest : Output} {bytes : Bytes}
    {next : Except StreamError Unit → Script Verdict}
    (accepted : (o.write (sinks.get dest) bytes).1 = .ok ()) (n : Nat) :
    Runs (impulse o sinks) closed (.write dest bytes next) ahead ((bytes.take n).map (dest, ·))
      (.write dest (bytes.drop n) next) ahead := by
  induction bytes generalizing n with
  | nil => simpa using Runs.refl
  | cons byte rest ih =>
    cases n with
    | zero => exact .refl
    | succ n =>
      refine .put ?_ (ih (by rw [fst_write_eq o _ rest (byte :: rest), accepted]) n)
      rw [impulse, fst_write_eq o _ [byte] (byte :: rest), accepted]

/-- A processor that copies writes whatever is taken of what it can read. -/
theorem runs_copy {bytes : Bytes} {next : Except StreamError Unit → Script Verdict}
    (accepted : (o.write (sinks.get .out) bytes).1 = .ok ()) (n : Nat) :
    Runs (impulse o sinks) closed (.copy {} next) bytes ((bytes.take n).map (.out, ·))
      (.copy {} next) (bytes.drop n) := by
  induction bytes generalizing n with
  | nil => simpa using Runs.refl
  | cons byte rest ih =>
    cases n with
    | zero => exact .refl
    | succ n =>
      have put : impulse o sinks (.copy { held := [byte] } next) =
          .put .out byte (.copy {} next) := by
        simp only [impulse, fst_write_eq o _ [byte] (byte :: rest), accepted]
      exact .get rfl (.put put (ih (by rw [fst_write_eq o _ rest (byte :: rest), accepted]) n))

/-- A processor that collects takes whatever there is room for. -/
theorem runs_collect {room : Option Nat} {next : Bytes → Script Verdict} (bytes : Bytes)
    (within : ∀ r, room = some r → bytes.length ≤ r) (sofar : Chunks) :
    ∃ sofar' : Chunks, sofar'.bytes = sofar.bytes ++ bytes ∧
      Runs (impulse o sinks) closed (.collect room sofar next) bytes []
        (.collect (room.map (· - bytes.length)) sofar' next) [] := by
  induction bytes generalizing room sofar with
  | nil =>
    refine ⟨sofar, (List.append_nil _).symm, ?_⟩
    have same : room.map (· - ([] : Bytes).length) = room := by cases room <;> rfl
    rw [same]
    exact .refl
  | cons byte rest ih =>
    have some_ : room ≠ some 0 := by
      rintro rfl
      exact absurd (within 0 rfl) (by simp)
    have within' : ∀ r, room.map (· - 1) = some r → rest.length ≤ r := by
      intro r same
      obtain ⟨r', rfl, rfl⟩ := Option.map_eq_some_iff.mp same
      have := within r' rfl
      rw [List.length_cons] at this
      omega
    obtain ⟨sofar', same, runs⟩ := ih within' (sofar.push [byte])
    refine ⟨sofar', ?_, .get (by rw [impulse, if_neg some_]) ?_⟩
    · rw [same]
      simp
    · have left : (room.map (· - 1)).map (· - rest.length) =
          room.map (· - (byte :: rest).length) := by
        rw [Option.map_map]
        congr 1
        funext r
        simp only [Function.comp_apply, List.length_cons]
        omega
      rw [← left]
      exact runs

private theorem accepted_of_takes {sink : Sink} {bytes : Bytes} {n : Nat}
    (takes : o.Takes sink bytes (.ok n)) : (o.write sink bytes).1 = .ok () := by
  rw [Outlets.Takes] at takes
  split at takes
  · next piped => rw [piped, Outlets.write]
  · cases result : (o.write sink bytes).1 with
    | ok => rfl
    | error e =>
      rw [result] at takes
      cases takes

private theorem refused_of_takes {sink : Sink} {bytes : Bytes} {e : StreamError}
    (takes : o.Takes sink bytes (.error e)) : (o.write sink bytes).1 = .error e := by
  rw [Outlets.Takes] at takes
  split at takes
  · obtain ⟨_, -, -, same⟩ := takes
    cases same
  · cases result : (o.write sink bytes).1 with
    | ok =>
      rw [result] at takes
      cases takes
    | error e' =>
      rw [result] at takes
      cases takes
      rfl

/-! ### What scripts do -/

/-- Copying is in tune while its processor waits for what is held. -/
theorem accords_copy (steady : o.flush (sinks.get .out) = .ok ()) {c : Copying}
    {next : Except StreamError Unit → Script Verdict}
    (atEnd : c.phase = .finish → c.held = [] ∧ c.ended) (further : c.phase = .topUp → c.canTake)
    (spent : c.ended → closed) (stops : ∀ e, ∃ failure, next (.error e) = .done (.error failure))
    (plain : (next (.ok ())).Plain) :
    Accords (impulse o sinks) o sinks (InTune o sinks) (.copy {} next) c.held closed
      (copyAction c next) := by
  have goesOn : ∀ {c : Copying}, c.phase ≠ .finish → (c.phase = .topUp → c.canTake) →
      (c.ended → closed) → InTune o sinks (.copy c next) (.copy {} next) c.held closed :=
    fun finish topUp spent => Pace.inTune (.copying (absurd · finish) topUp spent stops plain)
  have reads : ∀ {phase}, phase ≠ .finish → phase ≠ .topUp → c.canTake →
      Reads (InTune o sinks) (.copy {} next) c.held closed c.room
        fun bytes => .copy (c.take bytes phase) next := by
    intro phase finish topUp canTake
    simp only [Copying.canTake, Bool.and_eq_true, Bool.not_eq_true', decide_eq_true_eq] at canTake
    refine ⟨fun _ bytes some_ _ => ?_, ?_⟩
    · have took : c.take bytes phase =
          { c with held := c.held ++ bytes, room := c.room - bytes.length, phase } :=
        if_neg (by simpa using some_)
      dsimp only
      rw [took]
      refine Pace.inTune (.copying (c := { c with held := c.held ++ bytes, room := _, phase })
        (absurd · finish) (absurd · topUp) (fun ends => ?_) stops plain)
      rw [canTake.1] at ends
      cases ends
    · exact Pace.inTune (.copying (c := { c with ended := true, phase })
        (absurd · finish) (absurd · topUp) (fun _ => by simp [canTake.2]) stops plain)
  rw [copyAction]
  split
  case h_1 phase =>
    split
    · next canTake =>
      refine .tryRead (reads nofun nofun canTake)
        (goesOn (c := { c with phase := c.whenDry }) ?_ ?_ spent) <;>
        (unfold Copying.whenDry; dsimp only; split_ifs <;> simp)
    · exact .pass (goesOn (c := { c with phase := .push }) nofun nofun spent)
  case h_2 phase =>
    split
    · next held =>
      refine .tryWrite (fun result takes => ?_) ?_
      · cases result with
        | ok n =>
          exact ⟨_, _, runs_copy (accepted_of_takes takes) n,
            goesOn (c := { c with held := c.held.drop n, unflushed := true })
              (by simp [phase]) (by simp [phase]) spent⟩
        | error e =>
          have refused := refused_of_takes takes
          obtain ⟨failure, same⟩ := stops e
          obtain ⟨byte, rest, holds⟩ := List.exists_cons_of_ne_nil (by simpa using held)
          have skip : impulse o sinks (.copy { held := [byte] } next) =
              .skip (.done (.error failure)) := by
            rw [fst_write_eq o _ c.held [byte]] at refused
            simp only [impulse, refused, same]
          dsimp only
          rw [holds, same]
          exact ⟨_, _, .get rfl (.skip skip .refl), .done⟩
      · refine goesOn (c := { c with phase := if c.canTake then .topUp else .wait false }) ?_ ?_ spent
        · dsimp only
          split <;> simp
        · dsimp only
          split
          · next canTake => exact fun _ => canTake
          · nofun
    · next held =>
      have none_ : c.held = [] := by simpa using held
      refine .pass (Pace.inTune (.copying
        (c := { c with room := 8192, phase := if c.ended then .finish else .fill }) ?_ ?_ spent stops
          plain)) <;> dsimp only <;> split
      · next ends => exact fun _ => ⟨none_, ends⟩
      all_goals nofun
  case h_3 phase =>
    exact .tryRead (reads nofun nofun (further phase))
      (goesOn (c := { c with phase := .wait true }) nofun nofun spent)
  case h_4 phase =>
    refine .flush ?_
    rw [steady]
    exact goesOn (c := { c with unflushed := false, phase := .wait true }) nofun nofun spent
  case h_5 phase =>
    obtain ⟨held, ends⟩ := atEnd phase
    refine .flush ?_
    rw [held, steady]
    have flush : impulse o sinks (.flush .out next) = .skip (next (.ok ())) := by
      rw [impulse, steady]
    exact ⟨_, _, .ended (spent ends) rfl (.skip flush .refl), .plain plain⟩
  case h_6 phase => exact .await (goesOn (c := { c with phase := .fill }) nofun nofun spent)

/-- Collecting is in tune while its processor has what was read. -/
theorem accords_collect {room : Option Nat} {sofar sofar' : Chunks}
    {next : Bytes → Script Verdict} (same : sofar'.bytes = sofar.bytes)
    (plain : ∀ bytes, (next bytes).Plain) :
    Accords (impulse o sinks) o sinks (InTune o sinks) (.collect room sofar' next) [] closed
      (act (.collect room sofar next)) := by
  rw [act]
  split
  · next full =>
    have skip : impulse o sinks (.collect room sofar' next) = .skip (next sofar.bytes) := by
      rw [impulse, if_pos full, same]
    exact .pass ⟨_, _, .skip skip .refl, .plain (plain _)⟩
  · next further =>
    refine .read ⟨fun _ bytes some_ within => ?_, ?_⟩
    · have fits : ∀ r, room = some r → bytes.length ≤ r := by
        rintro r rfl
        exact within
      obtain ⟨sofar'', taken, runs⟩ := runs_collect bytes fits sofar'
      dsimp only
      rw [if_neg (by simpa using some_)]
      refine ⟨_, _, runs, .collecting ?_ plain⟩
      rw [taken, same, Chunks.bytes_push]
    · have get : impulse o sinks (.collect room sofar' next) =
          .get (fun byte => .collect (room.map (· - 1)) (sofar'.push [byte]) next)
            (next sofar'.bytes) := by
        rw [impulse, if_neg further]
      have size : 0 < room.getD 65536 := by
        cases room with
        | none => decide
        | some r => exact Nat.pos_of_ne_zero fun none_ => further (congrArg some none_)
      refine ⟨_, _, .ended (by simp [size]) get .refl, ?_⟩
      rw [same]
      exact .plain (plain _)

/-- Whatever a script does accords with its processor when that one has caught up. -/
theorem Pace.accords (steady : o.flush (sinks.get .out) = .ok ()) {s x : Script Verdict}
    (pace : Pace closed s x ahead) :
    Accords (impulse o sinks) o sinks (InTune o sinks) x ahead closed s.act := by
  cases pace with
  | done => exact .finish rfl
  | copying atEnd further spent stops plain =>
    exact accords_copy steady atEnd further spent stops plain
  | collecting same plain => exact accords_collect same plain
  | plain plain =>
    cases plain with
    | done => exact .finish rfl
    | copy stops plain => exact accords_copy (c := {}) steady nofun nofun nofun stops plain
    | collect plain => exact accords_collect rfl plain
    | flush plain => exact .flush ⟨_, _, .skip rfl .refl, .plain (plain _)⟩
    | @write dest bytes next plain =>
      cases bytes with
      | nil => exact .pass ⟨_, _, .skip rfl .refl, .plain (plain _)⟩
      | cons byte rest =>
        refine .write fun result takes => ?_
        cases result with
        | ok n =>
          exact ⟨_, _, runs_write (accepted_of_takes takes) n, Pace.inTune (.plain (.write plain))⟩
        | error e =>
          have refused := refused_of_takes takes
          rw [fst_write_eq o _ _ [byte]] at refused
          exact ⟨_, _, .skip (by rw [impulse, refused]) .refl, .plain (plain _)⟩

/-- A script that uses nothing but its streams is sequential, if its output can be flushed. -/
theorem follows_of_plain (steady : o.flush (sinks.get .out) = .ok ()) {s : Script Verdict}
    (plain : s.Plain) : Follows act (impulse o sinks) o sinks s s [] false := by
  refine ⟨InTune o sinks, ?_, Pace.inTune (.plain plain)⟩
  rintro s x ahead closed ⟨y, rest, runs, pace⟩
  exact ⟨y, rest, runs, pace.accords steady⟩

end Script

/-! ### Commands -/

namespace Task

variable {α β : Type}

/-- Plain scripts one after the other are plain. -/
theorem plain_bind {t : Task α} (first : t.toScript.Plain) {f : α → Task β}
    (second : ∀ a, (f a).toScript.Plain) : (t >>= f).toScript.Plain :=
  first.bind second fun _ => rfl

theorem plain_write (dest : Output) (bytes : Bytes) : (write dest bytes).toScript.Plain :=
  .write fun _ => .done

theorem plain_copy : copy.toScript.Plain := .copy (fun e => ⟨.stream e, rfl⟩) .done

theorem plain_collect (room : Option Nat) : (collect room).toScript.Plain := .collect fun _ => .done

end Task

namespace Command.Probe

/-- `head` reads a beginning, writes it and ends. -/
theorem plain_head (args : List String) : (head args).toScript.Plain :=
  Task.plain_bind (Task.plain_collect _) fun _ => Task.plain_write ..

theorem plain_flood (args : List String) : (flood args).toScript.Plain := by
  refine Task.plain_bind ?_ fun _ => Task.plain_write ..
  induction amount args / floodPiece with
  | zero => exact .done
  | succ pieces ih => exact Task.plain_bind (Task.plain_write ..) fun _ => ih

end Command.Probe

/-- Pipelines of scripts that use nothing but their streams are pipelines of sequential commands. -/
theorem Lineup.follows_of_plain {l : Lineup (Script Verdict)}
    (plain : ∀ place ∈ l.places, place.start.Plain) {o : Outlets}
    (steady : ∀ sink, o.flush sink = .ok ()) : ∀ place ∈ l.places,
      Follows Script.act (Script.impulse o place.wiring.sinks) o place.wiring.sinks place.start
        place.start [] false :=
  fun place member => Script.follows_of_plain (steady _) (plain place member)

end StoreShell
