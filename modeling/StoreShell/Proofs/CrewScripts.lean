import StoreShell.Proofs.Crews
import StoreShell.Proofs.Marks
import StoreShell.Script.Alone

/-! # Crews follow scripts

A script that runs alone is a piece of work of a crew whose turns come one after the other, with the
background in between whenever it waits. So is everything that time does to a world.
-/

namespace StoreShell.Crew

variable {r : Registry} {s t u : Crew} {dropped more : List (Script Unit)} {works before after : List Work}
  {w w' : World}

theorem Step.run (step : Step r s dropped t) : Run r s dropped t := .step .refl step

/-- Runs one after the other are a run. What was dropped in both is dropped. -/
theorem Run.trans (first : Run r s dropped t) (next : Run r t more u) :
    Run r s (dropped ++ more) u := by
  induction next with
  | refl => rwa [List.append_nil]
  | step _ step ih =>
    rw [← List.append_assoc]
    exact .step ih step

/-- Runs on which nothing is dropped follow one another. -/
theorem Run.andThen (first : Run r s [] t) (next : Run r t [] u) : Run r s [] u :=
  first.trans next

/-! ### The background -/

private theorem advance_withBackground (w : World) (l : Listing) (ps : List Prefetch) :
    { w with background := ps }.advance l =
      ((w.advance l).1, { (w.advance l).2 with background := ps }) := by
  have arrives : ∀ (v : World) (l : Listing), World.arrive { v with background := ps } l =
      { v.arrive l with background := ps } := fun v l => rfl
  have answered : ∀ (v : World) (l : Listing) answer due,
      World.advanceAnswered { v with background := ps } l answer due =
        ((v.advanceAnswered l answer due).1,
          { (v.advanceAnswered l answer due).2 with background := ps }) := by
    intro v l answer due
    rw [World.advanceAnswered, World.advanceAnswered]
    split <;> rfl
  have underWay : ∀ (v : World) (l : Listing) due,
      World.advanceUnderWay { v with background := ps } l due =
        ((v.advanceUnderWay l due).1,
          { (v.advanceUnderWay l due).2 with background := ps }) := by
    intro v l due
    rw [World.advanceUnderWay, World.advanceUnderWay]
    split
    · exact answered v l _ _
    · rfl
  have called : World.request { w with background := ps } l =
      ((w.request l).1, { (w.request l).2 with background := ps }) := by
    rw [World.request, World.request]
    cases received : (w.remoteAt l.remote).receive (.listFolder l.folder) with
    | mk result r =>
      have received' : (World.remoteAt { w with background := ps } l.remote).receive
          (.listFolder l.folder) = (result, r) := received
      rw [received']
      cases result <;> rfl
  rw [World.advance, World.advance]
  split
  · rw [called]
    obtain ⟨result, v⟩ := w.request l
    cases result with
    | error failure => rfl
    | ok _ => exact underWay v l _
  · exact underWay w l _
  · exact answered w l _ _

/-- A listing in the background keeps its place behind those that have their turns after it. -/
theorem runPrefetch_withBackground (w : World) (p : Prefetch) (ps : List Prefetch) :
    { w with background := ps ++ w.background }.runPrefetch p =
      { w.runPrefetch p with background := ps ++ (w.runPrefetch p).background } := by
  have same := (w.keepsMarks_advance p.listing).background
  rw [World.runPrefetch, World.runPrefetch, advance_withBackground]
  generalize w.advance p.listing = progress at same
  obtain ⟨result, v⟩ := progress
  cases result with
  | inl l =>
    dsimp only at same ⊢
    rw [same, List.append_assoc]
  | inr answer =>
    dsimp only at same ⊢
    rw [← same]
    rfl

/-- All listings in the background have their turns. -/
theorem run_runBackground (w : World) (works : List Work) :
    Run r ⟨w, works⟩ [] ⟨w.runBackground, works⟩ := by
  have turns : ∀ (ps : List Prefetch) (v : World),
      Run r ⟨{ v with background := ps ++ v.background }, works⟩ []
        ⟨ps.foldl World.runPrefetch v, works⟩ := by
    intro ps
    induction ps with
    | nil => exact fun v => .refl
    | cons p rest ih =>
      intro v
      have turn : Step r ⟨{ v with background := p :: rest ++ v.background }, works⟩ []
          ⟨{ v with background := rest ++ v.background }.runPrefetch p, works⟩ :=
        @Step.background r _ works [] p _ rfl
      rw [runPrefetch_withBackground] at turn
      exact turn.run.andThen (ih _)
  have all := turns w.background { w with background := [] }
  rwa [List.append_nil] at all

/-! ### Time -/

/-- Time may pass at any moment. -/
theorem run_clock (w : World) (clock : Nat) (works : List Work) :
    Run r ⟨w, works⟩ [] ⟨{ w with clock }, works⟩ := by
  apply Step.run
  apply Step.elsewhere <;> rfl

private theorem run_waitUntilIn (time turns : Nat) (w : World) (works : List Work) :
    Run r ⟨w, works⟩ [] ⟨World.waitUntilIn time turns w, works⟩ := by
  induction turns generalizing w with
  | zero => exact run_clock w _ works
  | succ turns ih =>
    refine (run_runBackground w works).andThen ?_
    rw [World.waitUntilIn]
    split
    · exact run_clock _ _ works
    · split
      · exact (run_clock _ _ works).andThen (ih _)
      · exact run_clock _ _ works

/-- Waiting for a time is a run of the background alone. -/
theorem run_waitUntil (w : World) (time : Nat) (works : List Work) :
    Run r ⟨w, works⟩ [] ⟨w.waitUntil time, works⟩ := by
  rw [World.waitUntil]
  split
  · exact .refl
  · exact run_waitUntilIn time _ w works

private theorem le_clock_waitUntilIn (time turns : Nat) (w : World) :
    time ≤ (World.waitUntilIn time turns w).clock := by
  induction turns generalizing w with
  | zero => exact Nat.le_max_right _ _
  | succ turns ih =>
    rw [World.waitUntilIn]
    split
    · exact Nat.le_max_right _ _
    · split
      · exact ih _
      · exact Nat.le_max_right _ _

/-- A time that was waited for has come. -/
theorem le_clock_waitUntil (w : World) (time : Nat) : time ≤ (w.waitUntil time).clock := by
  rw [World.waitUntil]
  split
  · next come => exact come
  · exact le_clock_waitUntilIn time _ w

/-- A script that waits for a folder gets it in a world that the background comes to. -/
theorem run_awaitClaimIn {cache : Nat} {folder : String} {turns : Nat}
    {claimed : Option (List Entry) × World}
    (awaited : World.awaitClaimIn cache folder turns w = some claimed) (works : List Work) :
    ∃ v, Run r ⟨w, works⟩ [] ⟨v, works⟩ ∧ v.claim? cache folder = some claimed := by
  induction turns generalizing w with
  | zero => exact ⟨w, .refl, awaited⟩
  | succ turns ih =>
    rw [World.awaitClaimIn] at awaited
    split at awaited
    · next here =>
      cases awaited
      exact ⟨w, .refl, here⟩
    · have background := run_runBackground (r := r) w works
      dsimp only at awaited
      split at awaited
      · next later =>
        cases awaited
        exact ⟨_, background, later⟩
      · split at awaited
        · cases awaited
        · obtain ⟨v, run, claim⟩ := ih awaited
          exact ⟨v, background.andThen ((run_clock _ _ works).andThen run), claim⟩

/-- Waiting for a folder comes to a world in which it is known or can be claimed. -/
theorem run_awaitClaim {cache : Nat} {folder : String} {claimed : Option (List Entry) × World}
    (awaited : w.awaitClaim cache folder = some claimed) (works : List Work) :
    ∃ v, Run r ⟨w, works⟩ [] ⟨v, works⟩ ∧ v.claim? cache folder = some claimed :=
  run_awaitClaimIn awaited works

/-! ### Listings -/

section Listings

variable {isCommand : Bool} {l : Listing} {next : Except Failure (List Entry) → Script Unit}

private theorem run_listed {v : World} {answer : Except Failure (List Entry)}
    (answered : w.advance l = (.inr answer, v)) :
    Run r ⟨w, before ++ ⟨isCommand, .list l next⟩ :: after⟩ []
      ⟨v, before ++ ⟨isCommand, next answer⟩ :: after⟩ :=
  (Step.go (.listed answered)).run

private theorem run_list {v : World} {l' : Listing} (goesOn : w.advance l = (.inl l', v)) :
    Run r ⟨w, before ++ ⟨isCommand, .list l next⟩ :: after⟩ []
      ⟨v, before ++ ⟨isCommand, .list l' next⟩ :: after⟩ :=
  (Step.go (.list goesOn)).run

private theorem run_awaitAnswered {answer : Except Failure (List Entry)} {due : Nat}
    (stage : l.stage = .answered answer due) :
    Run r ⟨w, before ++ ⟨isCommand, .list l next⟩ :: after⟩ []
      ⟨(w.awaitAnswered l answer due).2, before ++ ⟨isCommand, next answer⟩ :: after⟩ := by
  refine (run_waitUntil w due _).andThen (run_listed ?_)
  rw [World.advance, stage]
  dsimp only
  rw [World.advanceAnswered, if_pos (le_clock_waitUntil w due)]
  rfl

/-- The service looks at the folder, and its answer is waited for. -/
theorem run_look {v : World}
    (looks : w.advance l = v.advanceAnswered l (v.look l) (v.answerDue l)) :
    Run r ⟨w, before ++ ⟨isCommand, .list l next⟩ :: after⟩ []
      ⟨(v.awaitAnswered l (v.look l) (v.answerDue l)).2,
        before ++ ⟨isCommand, next (v.look l)⟩ :: after⟩ := by
  rw [World.advanceAnswered] at looks
  split at looks
  · next come =>
    rw [World.awaitAnswered, World.waitUntil, if_pos come]
    exact run_listed looks
  · exact (run_list looks).andThen (run_awaitAnswered rfl)

private theorem run_awaitUnderWay {due : Nat} (stage : l.stage = .underWay due) :
    Run r ⟨w, before ++ ⟨isCommand, .list l next⟩ :: after⟩ []
      ⟨(w.awaitUnderWay l due).2,
        before ++ ⟨isCommand, next (w.awaitUnderWay l due).1⟩ :: after⟩ := by
  refine (run_waitUntil w due _).andThen (run_look ?_)
  rw [World.advance, stage]
  dsimp only
  rw [World.advanceUnderWay, if_pos (le_clock_waitUntil w due)]

/-- A script that lists a folder waits for the answer. -/
theorem run_awaitListing :
    Run r ⟨w, before ++ ⟨isCommand, .list l next⟩ :: after⟩ []
      ⟨(w.awaitListing l).2, before ++ ⟨isCommand, next (w.awaitListing l).1⟩ :: after⟩ := by
  cases stage : l.stage with
  | answered answer due =>
    simp only [World.awaitListing, stage]
    exact run_awaitAnswered stage
  | underWay due =>
    simp only [World.awaitListing, stage]
    exact run_awaitUnderWay stage
  | asked =>
    cases requested : w.request l with
    | mk result v =>
      cases result with
      | error failure =>
        have waits : w.awaitListing l = (.error failure, v) := by
          simp only [World.awaitListing, stage, requested]
        rw [waits]
        apply run_listed
        simp only [World.advance, stage, requested]
      | ok _ =>
        have waits : w.awaitListing l = v.awaitUnderWay l (v.lookDue l) := by
          simp only [World.awaitListing, stage, requested]
        have advances : w.advance l = v.advanceUnderWay l (v.lookDue l) := by
          simp only [World.advance, stage, requested]
        rw [waits]
        rw [World.advanceUnderWay] at advances
        split at advances
        · next come =>
          rw [World.awaitUnderWay, World.waitUntil, if_pos come]
          exact run_look advances
        · exact (run_list advances).andThen (run_awaitUnderWay rfl)

end Listings

/-- A script that runs alone is followed by what comes next. -/
theorem run_script {α : Type} {script : Script α} {scene scene' : Scene} {a : α}
    (ran : script.run? scene = some (a, scene')) (isCommand : Bool) (then_ : α → Script Unit) :
    Run r ⟨scene.world, before ++ ⟨isCommand, script.bind then_⟩ :: after⟩ []
      ⟨scene'.world, before ++ ⟨isCommand, then_ a⟩ :: after⟩ := by
  induction script generalizing scene with
  | done b =>
    cases ran
    exact .refl
  | hang => cases ran
  | ask request next ih => exact (Step.go .ask).run.andThen (ih _ ran)
  | claim cache folder next ih =>
    rw [Script.run?] at ran
    split at ran
    · cases ran
    · next children world awaited =>
      obtain ⟨v, run, claimed⟩ := run_awaitClaim (r := r) awaited
        (before ++ ⟨isCommand, .claim cache folder fun a => (next a).bind then_⟩ :: after)
      exact run.andThen ((Step.go (.claim claimed)).run.andThen (ih _ ran))
  | list l next ih => exact run_awaitListing.andThen (ih _ ran)
  | write dest bytes next ih =>
    refine (Step.go (.write (scene.write dest bytes).1)).run.andThen ?_
    exact scene.world_write dest bytes ▸ ih _ ran
  | flush dest next ih => exact (Step.go (.flush (scene.flush dest))).run.andThen (ih _ ran)
  | copy copying next ih =>
    refine (Step.go (.copy (scene.copy copying).1)).run.andThen ?_
    exact scene.world_copy copying ▸ ih _ ran
  | collect room sofar next ih =>
    refine (Step.go (.collect (scene.collect room sofar).1)).run.andThen ?_
    exact scene.world_collect room sofar ▸ ih _ ran
  | saved which next ih =>
    exact (Step.go (.saved (scene.outlets.saved.get which).bytes)).run.andThen (ih _ ran)
  | release next ih => exact (Step.go .release).run.andThen (ih ran)

/-- A piece of work begins, runs alone and ends. -/
theorem run_alone {α : Type} {script : Script α} {scene scene' : Scene} {a : α} {isCommand : Bool}
    (begins : (Work.of isCommand script).Begins r scene.world)
    (ran : script.run? scene = some (a, scene')) :
    Run r ⟨scene.world, works⟩ [] ⟨scene'.world, works⟩ := by
  have first : Step r ⟨scene.world, [] ++ works⟩ []
      ⟨scene.world, [] ++ .of isCommand script :: works⟩ := .begin begins
  have middle : Run r ⟨scene.world, [] ++ .of isCommand script :: works⟩ []
      ⟨scene'.world, [] ++ ⟨isCommand, .done ()⟩ :: works⟩ := run_script ran isCommand _
  have last : Step r ⟨scene'.world, [] ++ ⟨isCommand, .done ()⟩ :: works⟩ []
      ⟨scene'.world, [] ++ works⟩ := .finish
  exact first.run.andThen (middle.andThen last.run)

end StoreShell.Crew
