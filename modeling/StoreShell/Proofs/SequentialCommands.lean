import StoreShell.Proofs.PipeAccounts

/-! # Sequential commands

A command of a pipeline reads what is there, in pieces of any size, possibly more than it needs yet,
and finds its output full or not. It is sequential if none of that shows in what it writes. `Follows`
says so: there is a processor that takes its input byte by byte, and the command writes what the
processor writes and ends when the processor ends, wherever the pieces are cut. What the command has
read and the processor has not taken is kept between them. Nothing is said of a command whose reader
is gone, and commands that use the world are not sequential.
-/

namespace StoreShell

open Ensemble

variable {σ τ : Type}

/-- What a sink may answer when bytes are written to it, but for a pipe that has lost its reader. -/
def Outlets.Takes (o : Outlets) (sink : Sink) (bytes : Bytes) (result : Except StreamError Nat) :
    Prop :=
  if sink = .pipe then ∃ n ≤ bytes.length, (n = 0 → bytes = []) ∧ result = .ok n
  else result = (o.write sink bytes).1.map fun _ => bytes.length

section Accords

variable (impulse : τ → Impulse τ) (o : Outlets) (sinks : PerOutput Sink)
  (R : σ → τ → Bytes → Bool → Prop) (x : τ) (ahead : Bytes) (closed : Bool)

/-- Whether whatever a command reads keeps it with its processor. -/
def Reads (limit : Nat) (got : Bytes → σ) : Prop :=
  (closed = false → ∀ bytes ≠ [], bytes.length ≤ limit → R (got bytes) x (ahead ++ bytes) false) ∧
    R (got []) x ahead (closed || decide (0 < limit))

/-- Whether a command writes what its processor writes, as far as that is taken. -/
def Writes (dest : Output) (bytes : Bytes) (took : Except StreamError Nat → σ) : Prop :=
  ∀ result, o.Takes (sinks.get dest) bytes result →
    match result with
    | .ok n => ∃ y rest, Runs impulse closed x ahead ((bytes.take n).map (dest, ·)) y rest ∧
      R (took (.ok n)) y rest closed
    | .error e => R (took (.error e)) x ahead closed

/-- Whether an action of a command is one of its processor. -/
inductive Accords : Action σ → Prop where
  | finish {verdict} : impulse x = .stop → Accords (.finish verdict)
  | pass {s} : R s x ahead closed → Accords (.pass s)
  | read {limit got} : Reads R x ahead closed limit got → Accords (.read limit got)
  | tryRead {limit got dry} : Reads R x ahead closed limit got → R dry x ahead closed →
      Accords (.tryRead limit got dry)
  | write {dest bytes took} : Writes impulse o sinks R x ahead closed dest bytes took →
      Accords (.write dest bytes took)
  | tryWrite {dest bytes took full} : Writes impulse o sinks R x ahead closed dest bytes took →
      R full x ahead closed → Accords (.tryWrite dest bytes took full)
  | await {input output s} : R s x ahead closed → Accords (.await input output s)
  | flush {dest next} : R (next (o.flush (sinks.get dest))) x ahead closed →
      Accords (.flush dest next)

end Accords

variable {act : σ → Action σ} {impulse : τ → Impulse τ} {o : Outlets} {sinks : PerOutput Sink}

/-- Whether commands and processors that belong together stay together. The processor may go on
without writing before it is compared. -/
def StaysClose (act : σ → Action σ) (impulse : τ → Impulse τ) (o : Outlets) (sinks : PerOutput Sink)
    (R : σ → τ → Bytes → Bool → Prop) : Prop :=
  ∀ {s x ahead closed}, R s x ahead closed → ∃ y rest, Runs impulse closed x ahead [] y rest ∧
    Accords impulse o sinks R y rest closed (act s)

/-- Whether a command is the processor as far as anybody can tell, when it has read some bytes ahead
of it and may have seen the end of its input. -/
def Follows (act : σ → Action σ) (impulse : τ → Impulse τ) (o : Outlets) (sinks : PerOutput Sink)
    (s : σ) (x : τ) (ahead : Bytes) (closed : Bool) : Prop :=
  ∃ R, StaysClose act impulse o sinks R ∧ R s x ahead closed

/-! ### One action -/

private theorem Accords.imp {R R' : σ → τ → Bytes → Bool → Prop} {x : τ} {ahead : Bytes}
    {closed : Bool} {action : Action σ}
    (implies : ∀ {s x ahead closed}, R s x ahead closed → R' s x ahead closed)
    (accords : Accords impulse o sinks R x ahead closed action) :
    Accords impulse o sinks R' x ahead closed action := by
  have reads : ∀ {limit got}, Reads R x ahead closed limit got → Reads R' x ahead closed limit got :=
    fun reads => ⟨fun open_ bytes some_ within => implies (reads.1 open_ bytes some_ within),
      implies reads.2⟩
  have writes : ∀ {dest bytes took}, Writes impulse o sinks R x ahead closed dest bytes took →
      Writes impulse o sinks R' x ahead closed dest bytes took := by
    intro dest bytes took writes result takes
    have goesOn := writes result takes
    cases result with
    | ok n =>
      obtain ⟨y, rest, runs, related⟩ := goesOn
      exact ⟨y, rest, runs, implies related⟩
    | error e => exact implies goesOn
  cases accords with
  | finish stops => exact .finish stops
  | pass related => exact .pass (implies related)
  | read related => exact .read (reads related)
  | tryRead related dry => exact .tryRead (reads related) (implies dry)
  | write related => exact .write (writes related)
  | tryWrite related full => exact .tryWrite (writes related) (implies full)
  | await related => exact .await (implies related)
  | flush related => exact .flush (implies related)

/-- Sequential commands do not let go of their streams. -/
theorem releases_of_accords {R : σ → τ → Bytes → Bool → Prop} {x : τ} {ahead : Bytes}
    {closed : Bool} {action : Action σ}
    (accords : Accords impulse o sinks R x ahead closed action) : action.releases = false := by
  cases accords <;> rfl

/-- Commands that follow processors stay with them. -/
theorem staysClose_follows : StaysClose act impulse o sinks (Follows act impulse o sinks) := by
  rintro s x ahead closed ⟨R, keeps, related⟩
  obtain ⟨y, rest, runs, accords⟩ := keeps related
  exact ⟨y, rest, runs, accords.imp fun related => ⟨R, keeps, related⟩⟩

namespace Ensemble

variable {m m' : Ensemble σ} {i : Nat} {R : σ → τ → Bytes → Bool → Prop} {x : τ} {ahead : Bytes}
  {closed : Bool}

/-- A pipe with a reader takes something. -/
theorem takes_of_write? {sink : Sink} {bytes : Bytes} {result : Except StreamError Nat}
    (alike : o.Alike m.outlets) (alive : sink = .pipe → (m.pipeAt i).readerGone = false)
    (wrote : m.write? i sink bytes = some (result, m')) : o.Takes sink bytes result := by
  rw [Outlets.Takes]
  split
  · next piped =>
    subst piped
    obtain ⟨⟨_, p⟩, put, same⟩ := Option.map_eq_some_iff.mp wrote
    cases same
    simp only [Pipe.write?, alive rfl, Bool.false_eq_true, if_false] at put
    split at put
    · cases put
    · next room =>
      cases put
      refine ⟨_, List.length_take_le' .., fun none => ?_, rfl⟩
      rw [List.length_eq_zero_iff, List.take_eq_nil_iff] at none
      exact none.resolve_left room
  · next elsewhere =>
    rw [m.write?_of_ne_pipe i elsewhere] at wrote
    obtain ⟨rfl, -⟩ := Prod.mk.inj (Option.some.inj wrote)
    rw [alike.write]

private theorem of_write? {dest : Output} {bytes : Bytes} {took : Except StreamError Nat → σ}
    {result : Except StreamError Nat}
    (writes : Writes impulse o sinks R x ahead closed dest bytes took)
    (takes : o.Takes (sinks.get dest) bytes result) :
    ∃ y rest, Runs impulse closed x ahead
      ((Deed.ofWrite? dest bytes result).toList.flatMap Deed.writes) y rest ∧
        R (took result) y rest closed := by
  have goesOn := writes result takes
  cases result with
  | ok n =>
    rw [Deed.ofWrite?, Option.toList_some, List.flatMap_singleton]
    exact goesOn
  | error e => exact ⟨x, ahead, .refl, goesOn⟩

/-- Whoever has seen the end of its input gets nothing more, and whoever gets nothing has seen the
end. -/
theorem of_read? {limit : Nat} {bytes : Bytes} {got : Bytes → σ}
    (inside : i ≤ m.pipes.length)
    (spent : closed → (m.front i).held = [] ∧ (m.front i).writerGone)
    (reads : Reads R x ahead closed limit got)
    (read : m.read? i limit = some (bytes, m')) :
    ∃ closed' : Bool, (closed → bytes = [] ∧ closed') ∧
      (closed' → bytes = [] ∧ (m.front i).held = [] ∧ (m.front i).writerGone) ∧
      R (got bytes) x (ahead ++ bytes) closed' := by
  have taken := front_of_read? inside read
  cases bytes with
  | nil =>
    refine ⟨closed || decide (0 < limit), fun closes => ⟨rfl, by simp [closes]⟩, fun ends => ?_, ?_⟩
    · rw [Bool.or_eq_true, decide_eq_true_eq] at ends
      exact ⟨rfl, ends.elim spent (Pipe.over_of_read? taken)⟩
    · rw [List.append_nil]
      exact reads.2
  | cons byte bytes =>
    have open_ : closed = false := by
      cases closes : closed with
      | false => rfl
      | true =>
        have held := Pipe.held_of_read? taken
        rw [(spent closes).1] at held
        cases held
    subst open_
    exact ⟨false, nofun, nofun,
      reads.1 rfl _ (List.cons_ne_nil byte bytes) (Pipe.length_le_of_read? taken)⟩

/-- How a command and its processor stand after an action: what the command took, whether it has
seen the end of its input now, and what the processor has come to. -/
structure Reached (impulse : τ → Impulse τ) (R : σ → τ → Bytes → Bool → Prop) (m m' : Ensemble σ)
    (i : Nat) (sinks : PerOutput Sink) (x : τ) (ahead : Bytes) (closed : Bool)
    (deed : Option Deed) (next : σ) (taken : Bytes) (closed' : Bool) (y : τ) (rest : Bytes) :
    Prop where
  passes : Passes m m' i sinks taken deed
  stays : closed → taken = [] ∧ closed'
  spent : closed' → taken = [] ∧ (m.front i).held = [] ∧ (m.front i).writerGone
  runs : Runs impulse closed' x (ahead ++ taken) (deed.toList.flatMap Deed.writes) y rest
  related : R next y rest closed'

/-- What a sequential command does is what its processor does. -/
theorem exists_reached {action : Action σ} {next : σ}
    (accords : Accords impulse o sinks R x ahead closed action) (alike : o.Alike m.outlets)
    (front : i ≤ m.pipes.length) (behind : ∀ dest, sinks.get dest = .pipe → i < m.pipes.length)
    (alive : ∀ dest, sinks.get dest = .pipe → (m.pipeAt i).readerGone = false)
    (spent : closed → (m.front i).held = [] ∧ (m.front i).writerGone)
    (performed : m.perform? i sinks action = some (next, m')) :
    ∃ taken closed' y rest, Reached impulse R m m' i sinks x ahead closed
      (m.wrote? i sinks action) next taken closed' y rest := by
  have still : ∀ {s}, R s x ahead closed →
      Reached impulse R m m i sinks x ahead closed none s [] closed x ahead := by
    intro s related
    refine ⟨.of_same rfl (fun _ => rfl) (.refl _) rfl, fun closes => ⟨rfl, closes⟩,
      fun closes => ⟨rfl, spent closes⟩, ?_, related⟩
    rw [List.append_nil]
    exact .refl
  have read : ∀ {limit bytes got}, Reads R x ahead closed limit got →
      m.read? i limit = some (bytes, m') → ∃ closed',
        Reached impulse R m m' i sinks x ahead closed none (got bytes) bytes closed' x
          (ahead ++ bytes) := by
    intro limit bytes got reads read
    obtain ⟨closed', stays, spent, related⟩ := of_read? front spent reads read
    exact ⟨closed', .of_read? front read, stays, spent, .refl, related⟩
  have write : ∀ {dest bytes took result}, Writes impulse o sinks R x ahead closed dest bytes took →
      m.write? i (sinks.get dest) bytes = some (result, m') → ∃ y rest,
        Reached impulse R m m' i sinks x ahead closed (Deed.ofWrite? dest bytes result)
          (took result) [] closed y rest := by
    intro dest bytes took result writes wrote
    obtain ⟨y, rest, runs, related⟩ := of_write? writes (takes_of_write? alike (alive dest) wrote)
    refine ⟨y, rest, .of_write? (behind dest) wrote, fun closes => ⟨rfl, closes⟩,
      fun closes => ⟨rfl, spent closes⟩, ?_, related⟩
    rw [List.append_nil]
    exact runs
  cases accords with
  | finish => cases performed
  | pass related =>
    cases performed
    exact ⟨_, _, _, _, still related⟩
  | read reads =>
    obtain ⟨_, taken, same⟩ := Option.map_eq_some_iff.mp performed
    cases same
    obtain ⟨_, reached⟩ := read reads taken
    exact ⟨_, _, _, _, reached⟩
  | tryRead reads dry =>
    simp only [perform?] at performed
    split at performed
    · next taken =>
      cases performed
      obtain ⟨_, reached⟩ := read reads taken
      exact ⟨_, _, _, _, reached⟩
    · cases performed
      exact ⟨_, _, _, _, still dry⟩
  | write writes =>
    obtain ⟨_, put, same⟩ := Option.map_eq_some_iff.mp performed
    cases same
    rw [wrote?, put]
    obtain ⟨_, _, reached⟩ := write writes put
    exact ⟨_, _, _, _, reached⟩
  | tryWrite writes full =>
    simp only [perform?] at performed
    split at performed
    · next put =>
      cases performed
      rw [wrote?, put]
      obtain ⟨_, _, reached⟩ := write writes put
      exact ⟨_, _, _, _, reached⟩
    · next shut =>
      cases performed
      rw [wrote?, shut]
      exact ⟨_, _, _, _, still full⟩
  | await related =>
    simp only [perform?] at performed
    split at performed
    · cases performed
      exact ⟨_, _, _, _, still related⟩
    · cases performed
  | flush related =>
    cases performed
    rw [alike.flush]
    exact ⟨_, _, _, _, still related⟩

end Ensemble

end StoreShell
