import StoreShell.Proofs.ClaimBalance
import StoreShell.Proofs.CrewLines
import StoreShell.Trial

/-! # Owners of claims

Whoever owns a claim gives it back if only it goes on: no more turns are needed than a listing has
stages. A claim whose owner was dropped stays where it is, and a script that wants the same folder
waits forever. That is what happens to a line that is cancelled while `ls` waits for a listing.
-/

namespace StoreShell

open StoreShell.Path

namespace Crew

open Script

variable {aliases : List (String × String)} {s t : Crew} {dropped more : List (Script Unit)}
  {w w' : World} {cache : Nat} {folder : String}

/-- What holds of all sound crews holds of a crew after any run. -/
theorem Run.keepsSound (run : Run (.withProbes aliases) s more t) (sound : Sound dropped s) :
    Sound (dropped ++ more) t := by
  induction run with
  | refl => rwa [List.append_nil]
  | step _ step ih =>
    rw [← List.append_assoc]
    exact step.sound ih

/-- How often a listing that is not kept waiting has to go on before it is answered. -/
private def stagesLeft : ListingStage → Nat
  | .asked => 2
  | .underWay _ => 1
  | .answered .. => 0

private theorem stagesLeft_of_advanceAnswered {l l' : Listing} {answer : Except Failure (List Entry)}
    {due : Nat} (goesOn : w.advanceAnswered l answer due = (.inl l', w')) :
    stagesLeft l'.stage = 0 ∧ w.clock < due := by
  rw [World.advanceAnswered] at goesOn
  split at goesOn
  · cases goesOn
  · next late =>
    cases goesOn
    exact ⟨rfl, Nat.lt_of_not_le late⟩

private theorem stagesLeft_of_advanceUnderWay {l l' : Listing} {due : Nat}
    (goesOn : w.advanceUnderWay l due = (.inl l', w')) :
    stagesLeft l'.stage = 0 ∨ stagesLeft l'.stage = 1 ∧ w.clock < due := by
  rw [World.advanceUnderWay] at goesOn
  split at goesOn
  · exact Or.inl (stagesLeft_of_advanceAnswered goesOn).1
  · next late =>
    cases goesOn
    exact Or.inr ⟨rfl, Nat.lt_of_not_le late⟩

private theorem stagesLeft_of_advance {l l' : Listing} (due : ∀ time, l.due? = some time → time ≤ w.clock)
    (goesOn : w.advance l = (.inl l', w')) : stagesLeft l'.stage < stagesLeft l.stage := by
  rw [World.advance] at goesOn
  split at goesOn
  · next stage =>
    rw [stage]
    split at goesOn
    · cases goesOn
    · rcases stagesLeft_of_advanceUnderWay goesOn with none | ⟨one, -⟩
      · rw [none]
        decide
      · rw [one]
        decide
  · next time stage =>
    rw [stage]
    rcases stagesLeft_of_advanceUnderWay goesOn with none | ⟨-, late⟩
    · rw [none]
      exact Nat.one_pos
    · exact absurd (due time (by simp [Listing.due?, stage])) (Nat.not_le_of_lt late)
  · next answer time stage =>
    have late := (stagesLeft_of_advanceAnswered goesOn).2
    exact absurd (due time (by simp [Listing.due?, stage])) (Nat.not_le_of_lt late)

/-- A listing in the background gives its claim back if it has its turns. -/
theorem released_of_background {p : Prefetch} {works : List Work}
    (sound : Sound dropped ⟨w, works⟩) (member : p ∈ w.background) :
    ∃ t, Run (.withProbes aliases) ⟨w, works⟩ [] t ∧
      t.world.isMarked p.cache p.listing.folder = false := by
  induction left : stagesLeft p.listing.stage using Nat.strongRecOn generalizing w p with
  | ind left ih =>
    obtain ⟨before, after, found⟩ := List.append_of_mem member
    obtain ⟨inside, normal⟩ := sound.background p member
    -- Once the time that the listing waits for has come it has its turn.
    let time := p.listing.due?.getD 0
    let v : World := { w with background := before ++ after, clock := time }
    have turn : Run (.withProbes aliases) ⟨w, works⟩ [] ⟨v.runPrefetch p, works⟩ :=
      (run_clock w time works).andThen
        (Step.background (w := { w with clock := time }) found).run
    have due : ∀ later, p.listing.due? = some later → later ≤ v.clock := by
      intro later here
      simp [v, time, here]
    have keeps := v.keepsMarks_advance p.listing
    cases advanced : v.advance p.listing with
    | mk result v' =>
      rw [advanced] at keeps
      cases result with
      | inl l =>
        have same := World.folder_of_advance advanced
        have further := stagesLeft_of_advance due advanced
        have world : v.runPrefetch p =
            { v' with background := v'.background ++ [{ p with listing := l }] } := by
          rw [World.runPrefetch, advanced]
        rw [world] at turn
        have sound := List.append_nil dropped ▸ turn.keepsSound sound
        obtain ⟨t, run, released⟩ := ih _ (left ▸ further) (p := { p with listing := l }) sound
          (List.mem_append_right _ (List.mem_singleton_self _)) rfl
        exact ⟨t, turn.andThen run, same ▸ released⟩
      | inr answer =>
        refine ⟨_, turn, ?_⟩
        have world : v.runPrefetch p = v'.setCache p.cache
            ((v'.cacheAt p.cache).finishFetch p.listing.folder answer.toOption).2 := by
          rw [World.runPrefetch, advanced]
          rfl
        dsimp only
        rw [world, World.isMarked_finishFetch v' (keeps.length ▸ inside) normal]
        simp

/-- A script that holds a claim gives it back if it goes on. -/
theorem released_of_work {isCommand : Bool} {script : Script Unit} {before after : List Work}
    (sound : Sound dropped ⟨w, before ++ ⟨isCommand, script⟩ :: after⟩)
    (holds : script.Holds cache folder) :
    ∃ t, Run (.withProbes aliases) ⟨w, before ++ ⟨isCommand, script⟩ :: after⟩ [] t ∧
      t.world.isMarked cache folder = false := by
  induction holds generalizing w with
  | @finish entries next =>
    obtain ⟨held, orderly⟩ := sound.orderly _ List.mem_append_cons_self
    obtain rfl := orderly.holds_iff.mp .finish
    obtain ⟨inside, normal⟩ := orderly.inside
    refine ⟨_, (Step.go .ask).run, ?_⟩
    dsimp only
    rw [World.answer_finishFetch, World.isMarked_finishFetch w inside normal]
    simp
  | @list l next _ _ ih =>
    have waits : Run (.withProbes aliases) ⟨w, before ++ ⟨isCommand, .list l next⟩ :: after⟩ []
        ⟨(w.awaitListing l).2, before ++ ⟨isCommand, next (w.awaitListing l).1⟩ :: after⟩ :=
      run_awaitListing
    obtain ⟨t, run, released⟩ := ih _ (List.append_nil dropped ▸ waits.keepsSound sound)
    exact ⟨t, waits.andThen run, released⟩

/-- Whoever owns a claim gives it back if nothing but the owner goes on. -/
theorem Sound.released (sound : Sound dropped s) (owned : s.Owned cache folder) :
    ∃ t, Run (.withProbes aliases) s [] t ∧ t.world.isMarked cache folder = false := by
  obtain ⟨w, works⟩ := s
  rcases owned with ⟨p, member, rfl, rfl⟩ | ⟨work, member, holds⟩
  · exact released_of_background sound member
  · obtain ⟨before, after, rfl⟩ := List.append_of_mem member
    exact released_of_work sound holds

/-- A claim that was abandoned is never given back. -/
theorem Sound.isMarked_of_dropped (sound : Sound dropped s) {script : Script Unit}
    (member : script ∈ dropped) (holds : script.Holds cache folder) :
    s.world.isMarked cache folder := by
  have abandoned : 0 < holders dropped cache folder := holders_pos.mpr ⟨script, member, holds⟩
  have balance := sound.balance cache folder
  rw [World.markCount] at balance
  cases marked : s.world.isMarked cache folder with
  | true => rfl
  | false =>
    rw [marked, Bool.toNat_false] at balance
    omega

/-- Every marked folder has somebody who is going to give the claim back if and only if no command
was dropped that held a claim. Whoever owns a claim gives it back if it goes on, and a claim that was
abandoned is marked for good. -/
theorem Run.forall_owned_iff (unclaimed : w.Unclaimed)
    (run : Run (.withProbes aliases) ⟨w, []⟩ dropped s) :
    ((∀ cache folder, s.world.isMarked cache folder → s.Owned cache folder) ↔
      ∀ script ∈ dropped, ∀ cache folder, ¬ script.Holds cache folder) ∧
    (∀ cache folder, s.Owned cache folder →
      ∃ t, Run (.withProbes aliases) s [] t ∧ t.world.isMarked cache folder = false) ∧
    ∀ script ∈ dropped, ∀ cache folder, script.Holds cache folder →
      ∀ more t, Run (.withProbes aliases) s more t → t.world.isMarked cache folder := by
  have sound := run.sound unclaimed
  refine ⟨⟨fun owned script member cache folder holds => ?_, fun none cache folder marked => ?_⟩,
    fun cache folder owned => sound.released owned, ?_⟩
  · -- The mark is there once, so it cannot have an owner as well.
    have abandoned := holders_pos.mpr ⟨script, member, holds⟩
    have held := owned_iff.mp (owned cache folder (sound.isMarked_of_dropped member holds))
    have balance := sound.balance cache folder
    have once : s.world.markCount cache folder ≤ 1 := Bool.toNat_le _
    omega
  · have kept : ¬ 0 < holders dropped cache folder := by
      rw [holders_pos]
      rintro ⟨script, member, holds⟩
      exact none script member cache folder holds
    have balance := sound.balance cache folder
    rw [World.markCount, marked, Bool.toNat_true] at balance
    apply owned_iff.mpr
    omega
  · intro script member cache folder holds more t further
    exact (further.keepsSound sound).isMarked_of_dropped (List.mem_append_left _ member) holds

end Crew

/-- Nothing is claimed in a world that has just been set up. -/
theorem World.unclaimed_start (supply : Trial.Supply) (settings : Settings) (area : Option Area)
    (cwd : Option String) : (Trial.start supply settings area cwd).Unclaimed := by
  have unmarked : ∀ w : World, (∀ c ∈ w.caches, c = .empty) → ∀ cache folder,
      w.isMarked cache folder = false := by
    intro w empty cache folder
    have here : w.cacheAt cache = .empty := by
      rw [cacheAt]
      cases found : w.caches[cache]? with
      | none => rfl
      | some c => exact empty c (List.mem_of_getElem? found)
    rw [isMarked, here]
    rfl
  cases area <;> cases cwd <;>
    exact ⟨by simp [Trial.start, switchArea, setCwd], rfl, unmarked _ (by simp [Trial.start,
      switchArea, setCwd])⟩

namespace Crew

open Script

def listedAndCancelled : List Execution.Job :=
  Execution.jobs ⟨[], none, none, [["/d"], []]⟩ [{ name := "ls" }, { name := "cancel" }]
    [Command.ls, Command.Probe.cancel] [["/d"], []]

def slowStage : Stage where
  world := Trial.start { objects := [("/d", none)], listDelay := 1 } {} none none
  outlets := .willing

/-- A line that is cancelled while `ls` waits for its listing abandons the claim, and the next `ls`
of the folder never ends. -/
theorem exists_abandoned : ∃ dropped w, Run (.withProbes []) ⟨slowStage.world, []⟩ dropped ⟨w, []⟩ ∧
    (∃ script ∈ dropped, ∃ cache folder, script.Holds cache folder) ∧
      runLine (.withProbes []) "ls /d" ⟨{ w with cancelled := false }, .willing⟩ = none := by
  let m : Ensemble (Script Verdict) :=
    { world := slowStage.world, outlets := .willing, input := [], capacity := 65536, pipes := [{}],
      seats := listedAndCancelled.map Execution.Job.seat }
  have evaluated : ((m.driveIn? Script.act 40 (m.startTurns [0, 1])).map fun m =>
      (m.world.isMarked 0 "/d", m.world.background.isEmpty,
        (runLine (.withProbes []) "ls /d" ⟨{ m.world with cancelled := false }, .willing⟩).isNone)) =
      some (true, true, true) := by
    decide +kernel
  obtain ⟨final, drives, shown⟩ := Option.map_eq_some_iff.mp evaluated
  simp only [Prod.mk.injEq, Option.isNone_iff_eq_none, List.isEmpty_iff] at shown
  obtain ⟨marked, background, hangs⟩ := shown
  obtain ⟨verdict, ran⟩ : ∃ verdict, Execution.runTogether [] listedAndCancelled slowStage =
      some (verdict, ⟨final.world, final.outlets⟩) := by
    have drives := Ensemble.drive?_eq_some_iff.mpr (Ensemble.drives_of_driveIn? drives)
    exact ⟨_, congrArg (Option.map _) drives⟩
  have known : ∀ j ∈ listedAndCancelled, j.Known (.withProbes []) := by
    intro j member
    rcases List.mem_cons.mp member with rfl | member
    · exact ⟨"ls", Command.ls, ["/d"], by rfl, rfl⟩
    · obtain rfl := List.mem_singleton.mp member
      exact ⟨"cancel", Command.Probe.cancel, [], by rfl, rfl⟩
  obtain ⟨dropped, run⟩ := crewed_runTogether [] known _ _ _ ran []
  refine ⟨dropped, final.world, run, ?_, hangs⟩
  have unowned : ¬ Owned ⟨final.world, []⟩ 0 "/d" := by
    simp [Owned, background]
  refine Classical.byContradiction fun nobody => unowned ?_
  have unclaimed : slowStage.world.Unclaimed :=
    World.unclaimed_start { objects := [("/d", none)], listDelay := 1 } {} none none
  exact (run.forall_owned_iff unclaimed).1.mpr (fun script member cache folder holds =>
    nobody ⟨script, member, cache, folder, holds⟩) 0 "/d" marked

end Crew

end StoreShell
