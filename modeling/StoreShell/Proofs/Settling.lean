import StoreShell.Script.Alone
import StoreShell.Script.Together

/-! # The silent part of a script

Requests, claims and listings that need not wait involve no stream: they are silent, and nothing can
tell how many of them a script makes. `Script.silent?` is one such step, `Script.settle?` follows a
script that takes no others to its end.
-/

namespace StoreShell

namespace Script

/-- One silent step, if a script can take one without waiting. -/
def silent? : Script α → World → Option (Script α × World)
  | .ask r next, w =>
    let (a, w) := w.answer r
    some (next a, w)
  | .claim cache folder next, w => (w.claim? cache folder).map fun (a, w) => (next a, w)
  | .list l next, w =>
    if w.isWaiting l then none
    else
      match w.advance l with
      | (.inr answer, w) => some (next answer, w)
      | _ => none
  | _, _ => none

/-- How a script ends that takes silent steps only. -/
def settle? : Script α → World → Option (α × World)
  | .done a, w => some (a, w)
  | .ask r next, w =>
    let (a, w) := w.answer r
    (next a).settle? w
  | .claim cache folder next, w =>
    match w.claim? cache folder with
    | some (a, w) => (next a).settle? w
    | none => none
  | .list l next, w =>
    if w.isWaiting l then none
    else
      match w.advance l with
      | (.inr answer, w) => (next answer).settle? w
      | _ => none
  | _, _ => none

variable {α β : Type}

/-- A script that goes on with another one settles as the two do one after the other. -/
theorem settle?_bind (s : Script α) (f : α → Script β) (w : World) :
    (s.bind f).settle? w = (s.settle? w).bind fun (a, w) => (f a).settle? w := by
  induction s generalizing w with
  | done a => rfl
  | ask r next ih => exact ih _ _
  | claim cache folder next ih =>
    simp only [bind, settle?]
    cases w.claim? cache folder with
    | none => rfl
    | some claimed => exact ih _ _
  | list l next ih =>
    simp only [bind, settle?]
    split
    · rfl
    · split
      · exact ih _ _
      · rfl
  | write dest bytes next ih | flush dest next ih | copy copying next ih
  | collect room sofar next ih | saved which next ih | release next ih => rfl
  | hang => rfl

section Tasks

variable {w w' : World}

/-- A task goes on with the next one if it succeeded. -/
theorem settle?_andThen {t : Task α} {f : α → Task β} {a : α}
    (settles : t.settle? w = some (.ok a, w')) : (t >>= f : Task β).settle? w = (f a).settle? w' := by
  change (Script.bind t _).settle? w = _
  rw [settle?_bind, settles]
  rfl

/-- A failure that comes without waiting ends the whole. -/
theorem settle?_andThen_error {t : Task α} {f : α → Task β} {failure : Failure}
    (settles : t.settle? w = some (.error failure, w')) :
    (t >>= f : Task β).settle? w = some (.error failure, w') := by
  change (Script.bind t _).settle? w = _
  rw [settle?_bind, settles]
  rfl

theorem settle?_request (r : Request) (w : World) :
    (request r).settle? w = some (w.answer r) := rfl

theorem settle?_attempt {t : Task α} {result : Except Failure α}
    (settles : t.settle? w = some (result, w')) :
    (Task.attempt t).settle? w = some (.ok result, w') := by
  change (Script.bind t _).settle? w = _
  rw [settle?_bind, settles]
  rfl

end Tasks

/-- What settles is at its end, or takes a silent step and settles then. -/
theorem settle?_induction {a : α} {w' : World} {motive : Script α → World → Prop}
    (done : motive (.done a) w')
    (step : ∀ {s t w v}, s.silent? w = some (t, v) → motive t v → motive s w) {s : Script α}
    {w : World} (settles : s.settle? w = some (a, w')) : motive s w := by
  induction s generalizing w with
  | done b =>
    cases settles
    exact done
  | ask r next ih => exact step rfl (ih _ settles)
  | claim cache folder next ih =>
    simp only [settle?] at settles
    split at settles
    · next b v claimed =>
      refine step ?_ (ih b settles)
      simp only [silent?, claimed, Option.map_some]
    · cases settles
  | list l next ih =>
    simp only [settle?] at settles
    split at settles
    · cases settles
    · next ready =>
      split at settles
      · next answer v arrived =>
        refine step ?_ (ih answer settles)
        simp only [silent?, if_neg ready, arrived]
      · cases settles
  | write dest bytes next | flush dest next | copy copying next | collect room sofar next
  | saved which next | release next => cases settles
  | hang => cases settles

/-- A silent step stays one when more work follows. -/
theorem silent?_bind {s t : Script α} {w v : World} (step : s.silent? w = some (t, v))
    (f : α → Script β) : (s.bind f).silent? w = some (t.bind f, v) := by
  cases s with
  | ask r next =>
    cases step
    rfl
  | claim cache folder next =>
    simp only [silent?, bind] at step ⊢
    obtain ⟨claimed, found, same⟩ := Option.map_eq_some_iff.mp step
    cases same
    rw [found]
    rfl
  | list l next =>
    simp only [silent?, bind] at step ⊢
    split at step
    · cases step
    · next ready =>
      rw [if_neg ready]
      split at step
      · next answer u arrived =>
        cases step
        rfl
      · cases step
  | done a | write dest bytes next | flush dest next | copy copying next
  | collect room sofar next | saved which next | release next => cases step
  | hang => cases step

/-! ### Silent steps where scripts run -/

/-- A folder that is known or can be claimed need not be waited for. -/
theorem awaitClaim_of_claim? {w : World} {cache : Nat} {folder : String}
    {claimed : Option (List Entry) × World} (found : w.claim? cache folder = some claimed) :
    w.awaitClaim cache folder = some claimed := by
  rw [World.awaitClaim, World.backgroundTurns, World.awaitClaimIn, found]

private theorem awaitAnswered_of_advance {w w' : World} {l : Listing}
    {answer found : Except Failure (List Entry)} {due : Nat}
    (arrived : w.advanceAnswered l answer due = (.inr found, w')) :
    w.awaitAnswered l answer due = (found, w') := by
  rw [World.advanceAnswered] at arrived
  split at arrived
  · next ready =>
    cases arrived
    rw [World.awaitAnswered, World.waitUntil, if_pos ready]
  · cases arrived

private theorem awaitUnderWay_of_advance {w w' : World} {l : Listing}
    {found : Except Failure (List Entry)} {due : Nat}
    (arrived : w.advanceUnderWay l due = (.inr found, w')) :
    w.awaitUnderWay l due = (found, w') := by
  rw [World.advanceUnderWay] at arrived
  split at arrived
  · next ready =>
    rw [World.awaitUnderWay, World.waitUntil, if_pos ready]
    exact awaitAnswered_of_advance arrived
  · cases arrived

/-- A listing that need not wait is not waited for. -/
theorem awaitListing_of_advance {w w' : World} {l : Listing}
    {found : Except Failure (List Entry)} (arrived : w.advance l = (.inr found, w')) :
    w.awaitListing l = (found, w') := by
  cases stage : l.stage with
  | asked =>
    simp only [World.advance, stage] at arrived
    simp only [World.awaitListing, stage]
    split at arrived
    · cases arrived
      rfl
    · exact awaitUnderWay_of_advance arrived
  | underWay due =>
    simp only [World.advance, stage] at arrived
    simp only [World.awaitListing, stage]
    exact awaitUnderWay_of_advance arrived
  | answered answer due =>
    simp only [World.advance, stage] at arrived
    simp only [World.awaitListing, stage]
    exact awaitAnswered_of_advance arrived

/-- Alone, a script runs on after a silent step. -/
theorem run?_of_silent? {s t : Script α} {scene : Scene} {v : World}
    (step : s.silent? scene.world = some (t, v)) :
    s.run? scene = t.run? { scene with world := v } := by
  cases s with
  | ask r next =>
    cases step
    rfl
  | claim cache folder next =>
    simp only [silent?] at step
    obtain ⟨claimed, found, same⟩ := Option.map_eq_some_iff.mp step
    cases same
    simp only [run?, awaitClaim_of_claim? found]
  | list l next =>
    simp only [silent?] at step
    split at step
    · cases step
    · split at step
      · next answer u arrived =>
        cases step
        simp only [run?, awaitListing_of_advance arrived]
      · cases step
  | done a | write dest bytes next | flush dest next | copy copying next
  | collect room sofar next | saved which next | release next => cases step
  | hang => cases step

/-- Alone, a script that settles ends as it settles. -/
theorem run?_of_settle? {s : Script α} {scene : Scene} {a : α} {v : World}
    (settles : s.settle? scene.world = some (a, v)) :
    s.run? scene = some (a, { scene with world := v }) := by
  have runs : ∀ scene' : Scene, scene'.world = scene.world →
      s.run? scene' = some (a, { scene' with world := v }) := by
    refine settle?_induction (motive := fun s w => ∀ scene : Scene, scene.world = w →
      s.run? scene = some (a, { scene with world := v })) ?_ ?_ settles
    · rintro scene rfl
      rfl
    · rintro s t w u step ih scene rfl
      rw [run?_of_silent? step]
      exact ih _ rfl
  exact runs scene rfl

/-- Among others, a silent step is an effect on the world. -/
theorem act_of_silent? {s t : Script Verdict} {w v : World} (step : s.silent? w = some (t, v)) :
    ∃ due run, s.act = .effect due run ∧ run w = some (t, v) := by
  cases s with
  | ask r next =>
    cases step
    exact ⟨_, _, rfl, rfl⟩
  | claim cache folder next => exact ⟨_, _, rfl, step⟩
  | list l next =>
    refine ⟨_, _, rfl, ?_⟩
    simp only [silent?] at step
    split at step
    · cases step
    · next ready =>
      rw [if_neg ready]
      split at step
      · next answer u arrived =>
        cases step
        rw [arrived]
      · cases step
  | done a | write dest bytes next | flush dest next | copy copying next
  | collect room sofar next | saved which next | release next => cases step
  | hang => cases step

end Script

end StoreShell
