import StoreShell.Proofs.Coupling

/-! # Scripts that are abreast

A running command is seen by its next action. Two scripts that are alike take silent steps until
their next actions are abreast: the same on the streams, and leading to coupled scripts. Only then
do the worlds have to match, but nothing is cancelled in between either.
-/

namespace StoreShell

variable {strict : Bool} {cache remote : Nat}

/-- Actions on streams that do the same in both runs and go on with coupled scripts. -/
inductive Abreast (strict : Bool) (cache remote : Nat) :
    Action (Script Verdict) → Action (Script Verdict) → Prop where
  | finish (verdict) : Abreast strict cache remote (.finish verdict) (.finish verdict)
  | pass {s t} : Coupled strict cache remote s t →
      Abreast strict cache remote (.pass s) (.pass t)
  | read {limit got got'} : (∀ bytes, Coupled strict cache remote (got bytes) (got' bytes)) →
      Abreast strict cache remote (.read limit got) (.read limit got')
  | tryRead {limit got got' dry dry'} :
      (∀ bytes, Coupled strict cache remote (got bytes) (got' bytes)) →
      Coupled strict cache remote dry dry' →
      Abreast strict cache remote (.tryRead limit got dry) (.tryRead limit got' dry')
  | write {dest bytes took took'} : (∀ r, Coupled strict cache remote (took r) (took' r)) →
      Abreast strict cache remote (.write dest bytes took) (.write dest bytes took')
  | complain {bytes bytes' took took'} : ¬ strict → MatchedBytes strict .err bytes bytes' →
      (∀ e, Coupled strict cache remote (took (.error e)) (took' (.error e))) →
      Coupled strict cache remote (took (.ok bytes.length)) (took' (.ok bytes'.length)) →
      Abreast strict cache remote (.write .err bytes took) (.write .err bytes' took')
  | tryWrite {dest bytes took took' full full'} :
      (∀ r, Coupled strict cache remote (took r) (took' r)) →
      Coupled strict cache remote full full' →
      Abreast strict cache remote (.tryWrite dest bytes took full)
        (.tryWrite dest bytes took' full')
  | await {input output next next'} : Coupled strict cache remote next next' →
      Abreast strict cache remote (.await input output next) (.await input output next')
  | flush {dest next next'} : (∀ r, Coupled strict cache remote (next r) (next' r)) →
      Abreast strict cache remote (.flush dest next) (.flush dest next')
  | saved {which next next'} : (∀ r, Coupled strict cache remote (next r) (next' r)) →
      Abreast strict cache remote (.saved which next) (.saved which next')
  | release {next next'} : Coupled strict cache remote next next' →
      Abreast strict cache remote (.release next) (.release next')

theorem Abreast.symm {a b : Action (Script Verdict)} (abreast : Abreast strict cache remote a b) :
    Abreast strict cache remote b a := by
  cases abreast with
  | finish verdict => exact .finish verdict
  | pass next => exact .pass next.symm
  | read got => exact .read fun bytes => (got bytes).symm
  | tryRead got dry => exact .tryRead (fun bytes => (got bytes).symm) dry.symm
  | write took => exact .write fun r => (took r).symm
  | complain loose same fails took =>
    exact .complain loose same.symm (fun e => (fails e).symm) took.symm
  | tryWrite took full => exact .tryWrite (fun r => (took r).symm) full.symm
  | await next => exact .await next.symm
  | flush next => exact .flush fun r => (next r).symm
  | saved next => exact .saved fun r => (next r).symm
  | release next => exact .release next.symm

/-- An action that is abreast of another one is no effect on the world. -/
theorem Abreast.ne_effect {a b : Action (Script Verdict)} (abreast : Abreast strict cache remote a b)
    (due : Option Nat) (run : World → Option (Script Verdict × World)) : a ≠ .effect due run := by
  cases abreast <;> exact nofun

/-- Of two actions that are abreast either both end, with one verdict, or neither does. -/
theorem Abreast.finish_or {a b : Action (Script Verdict)}
    (abreast : Abreast strict cache remote a b) :
    (∃ verdict, a = .finish verdict ∧ b = .finish verdict) ∨
      (∀ verdict, a ≠ .finish verdict) ∧ ∀ verdict, b ≠ .finish verdict := by
  cases abreast with
  | finish verdict => exact Or.inl ⟨verdict, rfl, rfl⟩
  | pass | read | tryRead | write | complain | tryWrite | await | flush | saved | release =>
    exact Or.inr ⟨nofun, nofun⟩

section Met

variable {next next' : Except StreamError Unit → Script Verdict}

private theorem abreast_write {dest : Output} {bytes bytes' : Bytes}
    (same : MatchedBytes strict dest bytes bytes')
    (coupled : ∀ r, Coupled strict cache remote (next r) (next' r)) :
    Abreast strict cache remote (Script.write dest bytes next).act
      (Script.write dest bytes' next').act := by
  have rest : ∀ left left', left = left' →
      Coupled strict cache remote (.write dest left next) (.write dest left' next') :=
    fun _ _ equal _ _ matched => .write matched (Or.inl equal) coupled
  rcases same with rfl | ⟨loose, rfl, filled, filled'⟩
  · rw [Script.act, Script.act]
    split
    · exact .pass (coupled _)
    · refine .write fun r => ?_
      cases r with
      | error e => exact coupled _
      | ok n => exact rest _ _ rfl
  · rw [Script.act, Script.act, if_neg (by simpa using filled), if_neg (by simpa using filled')]
    refine .complain loose (Or.inr ⟨loose, rfl, filled, filled'⟩) (fun e => coupled _) (rest _ _ ?_)
    rw [List.drop_length, List.drop_length]

private theorem abreast_copy (copying : Copying)
    (coupled : ∀ r, Coupled strict cache remote (next r) (next' r)) :
    Abreast strict cache remote (Script.copy copying next).act
      (Script.copy copying next').act := by
  have goesOn : ∀ c, Coupled strict cache remote (.copy c next) (.copy c next') :=
    fun c _ _ matched => .copy matched coupled
  rw [Script.act, Script.act, Script.copyAction, Script.copyAction]
  cases copying.phase with
  | fill =>
    dsimp only
    split
    · exact .tryRead (fun _ => goesOn _) (goesOn _)
    · exact .pass (goesOn _)
  | push =>
    dsimp only
    split
    · refine .tryWrite (fun r => ?_) (goesOn _)
      cases r with
      | error e => exact coupled _
      | ok n => exact goesOn _
    · exact .pass (goesOn _)
  | topUp => exact .tryRead (fun _ => goesOn _) (goesOn _)
  | idle =>
    refine .flush fun r => ?_
    cases r with
    | error e => exact coupled _
    | ok _ => exact goesOn _
  | finish => exact .flush coupled
  | wait forInput => exact .await (goesOn _)

private theorem abreast_collect (room : Option Nat) (sofar : Chunks)
    {next next' : Bytes → Script Verdict}
    (coupled : ∀ r, Coupled strict cache remote (next r) (next' r)) :
    Abreast strict cache remote (Script.collect room sofar next).act
      (Script.collect room sofar next').act := by
  rw [Script.act, Script.act]
  split
  · exact .pass (coupled _)
  · refine .read fun bytes => ?_
    split
    · exact coupled _
    · exact fun _ _ matched => .collect matched coupled

end Met

/-- Scripts that are alike take silent steps until they are abreast of each other. -/
theorem Alike.silent_induction
    {motive : ∀ s t w v, Alike (α := Verdict) strict cache remote s t w v → Prop}
    (left : ∀ {s s' t w w' v} (step : s.silent? w = some (s', w'))
      (alike : Alike strict cache remote s' t w' v), motive s' t w' v alike →
        motive s t w v (.left step alike))
    (right : ∀ {s t t' w v v'} (step : t.silent? v = some (t', v'))
      (alike : Alike strict cache remote s t' w v'), motive s t' w v' alike →
        motive s t w v (.right step alike))
    (met : ∀ {s t w v} (matched : Matched strict cache remote w v)
      (coupled : Coupled strict cache remote s t), Abreast strict cache remote s.act t.act →
        motive s t w v (coupled w v matched))
    {s t : Script Verdict} {w v : World} (alike : Alike strict cache remote s t w v) :
    motive s t w v alike := by
  induction alike with
  | left step alike ih => exact left step alike ih
  | right step alike ih => exact right step alike ih
  | done matched => exact met matched (coupled_done _) (.finish _)
  | write matched same next =>
    exact met matched (fun _ _ m => .write m same next) (abreast_write same next)
  | flush matched next => exact met matched (fun _ _ m => .flush m next) (.flush next)
  | copy matched next => exact met matched (fun _ _ m => .copy m next) (abreast_copy _ next)
  | collect matched next =>
    exact met matched (fun _ _ m => .collect m next) (abreast_collect _ _ next)
  | saved matched next => exact met matched (fun _ _ m => .saved m next) (.saved next)
  | release matched next => exact met matched (fun _ _ m => .release m next) (.release next)

/-! ### Cancellation -/

private theorem cancelled_answer {w : World} {r : Request}
    (live : (w.answer r).2.cancelled = false) : w.cancelled = false := by
  cases r with
  | cancel => cases live
  | prefetch folder =>
    simp only [World.answer, World.prefetch] at live
    split at live <;> exact live
  | finishFetch cache folder entries =>
    simp only [World.answer, World.onCache] at live
    split at live <;> exact live
  | desk | enter _ | known _ _ | matching _ _ _ | note _ _ _ | forget _ _ | forgetStale _ _
  | stat _ _ | read _ _ | upload _ _ _ _ | makeFolder _ _ _ | remove _ _ _ | rename _ _ _ =>
    exact live

private theorem cancelled_claim? {w w' : World} {cache : Nat} {folder : String}
    {known : Option (List Entry)} (claimed : w.claim? cache folder = some (known, w')) :
    w'.cancelled = w.cancelled := by
  simp only [World.claim?] at claimed
  split at claimed
  · cases claimed
    rfl
  · split at claimed
    · cases claimed
      rfl
    · cases claimed

private theorem cancelled_advance (w : World) (l : Listing) :
    (w.advance l).2.cancelled = w.cancelled := by
  have answered : ∀ w : World, ∀ answer due,
      (w.advanceAnswered l answer due).2.cancelled = w.cancelled := by
    intro w answer due
    rw [World.advanceAnswered]
    split <;> rfl
  have underWay : ∀ w : World, ∀ due, (w.advanceUnderWay l due).2.cancelled = w.cancelled := by
    intro w due
    rw [World.advanceUnderWay]
    split
    · exact answered w _ _
    · rfl
  cases stage : l.stage with
  | asked =>
    simp only [World.advance, stage, World.request]
    split
    · next asked =>
      split at asked
      · cases asked
        rfl
      · cases asked
    · next asked =>
      split at asked
      · cases asked
      · cases asked
        exact underWay _ _
  | underWay due =>
    simp only [World.advance, stage]
    exact underWay w due
  | answered answer due =>
    simp only [World.advance, stage]
    exact answered w answer due

/-- No silent step takes a cancellation back. -/
theorem live_of_silent? {α : Type} {s t : Script α} {w v : World}
    (step : s.silent? w = some (t, v)) (live : v.cancelled = false) : w.cancelled = false := by
  cases s with
  | ask r next =>
    cases step
    exact cancelled_answer live
  | claim cache folder next =>
    obtain ⟨⟨known, w'⟩, claimed, same⟩ := Option.map_eq_some_iff.mp step
    cases same
    exact (cancelled_claim? claimed).symm.trans live
  | list l next =>
    simp only [Script.silent?] at step
    split at step
    · cases step
    · split at step
      · next answer u arrived =>
        cases step
        rw [← cancelled_advance w l, arrived]
        exact live
      · cases step
  | done a | write dest bytes next | flush dest next | copy copying next
  | collect room sofar next | saved which next | release next => cases step
  | hang => cases step

/-- Nothing is cancelled while scripts are alike. -/
theorem Alike.live {α : Type} {s t : Script α} {w v : World}
    (alike : Alike strict cache remote s t w v) : w.cancelled = false ∧ v.cancelled = false := by
  induction alike with
  | left step _ ih => exact ⟨live_of_silent? step ih.1, ih.2⟩
  | right step _ ih => exact ⟨ih.1, live_of_silent? step ih.2⟩
  | done matched | write matched | flush matched | copy matched | collect matched
  | saved matched | release matched => exact ⟨matched.twins.left.live, matched.twins.right.live⟩

end StoreShell
