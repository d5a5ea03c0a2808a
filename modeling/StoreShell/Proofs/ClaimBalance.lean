import StoreShell.Proofs.Crews
import StoreShell.Proofs.Marks
import StoreShell.Proofs.OrderlyCommands

/-! # The balance of claims

Every marked folder of a cache has either one owner that is going to give the claim back, or its
claim was held by a command when that was dropped. Nothing takes the mark off in the second case. The
proof counts: what happens to a world changes the marks on a folder by as many as the claims that are
held on it.
-/

namespace StoreShell

open StoreShell.Path


/-- One if a claim is held on a folder. -/
def tick (held : Option (Nat × String)) (cache : Nat) (folder : String) : Nat :=
  if held = some (cache, folder) then 1 else 0

namespace World

/-- The number of marks on a folder, at most one. -/
def markCount (w : World) (cache : Nat) (folder : String) : Nat :=
  (w.isMarked cache folder).toNat

def listings (w : World) (cache : Nat) (folder : String) : Nat :=
  w.background.countP fun p => p.cache = cache ∧ p.listing.folder = folder

/-- Whether the current cache and those that wait for listings in the background exist. -/
structure Ordered (w : World) : Prop where
  current : w.cache < w.caches.length
  background : ∀ p ∈ w.background, p.cache < w.caches.length ∧ IsNormal p.listing.folder

/-- What happens to a world while somebody holds a claim and then another one, if no claim is lost:
marks come and go with claims. -/
structure Passes (w : World) (held : Option (Nat × String)) (w' : World)
    (held' : Option (Nat × String)) : Prop where
  ordered : w'.Ordered
  length : w.caches.length ≤ w'.caches.length
  balance : ∀ cache folder,
    w'.listings cache folder + tick held' cache folder + w.markCount cache folder =
      w.listings cache folder + tick held cache folder + w'.markCount cache folder

variable {w w' : World} {held : Option (Nat × String)} {id : Nat} {folder : String}

theorem Ordered.resembles (ordered : w.Ordered) (same : w.Resembles w') : w'.Ordered := by
  constructor
  · rw [same.cache, same.length]
    exact ordered.current
  · rw [same.background, same.length]
    exact ordered.background

/-- As long as marks are kept, claims stay with those who hold them. -/
theorem KeepsMarks.passes (keeps : w.KeepsMarks w') (ordered : w.Ordered) :
    w.Passes held w' held where
  ordered := ordered.resembles keeps.toResembles
  length := Nat.le_of_eq keeps.length.symm
  balance cache folder := by
    rw [markCount, markCount, keeps.marks, listings, listings, keeps.background]

/-- A claim is taken. -/
theorem passes_beginFetch (ordered : w.Ordered) (inside : id < w.caches.length)
    (normal : IsNormal folder) (claimed : ((w.cacheAt id).beginFetch folder).1 = true) :
    w.Passes none (w.setCache id ((w.cacheAt id).beginFetch folder).2) (some (id, folder)) where
  ordered := ordered.resembles (w.resembles_setCache id _)
  length := Nat.le_of_eq (w.resembles_setCache id _).length.symm
  balance cache other := by
    obtain ⟨free, marked⟩ := w.isMarked_beginFetch inside normal claimed
    rw [markCount, markCount, marked, listings, listings, (w.resembles_setCache id _).background, tick, tick]
    by_cases here : id = cache ∧ folder = other
    · obtain ⟨rfl, rfl⟩ := here
      simp [free]
    · have elsewhere : ¬ some (id, folder) = some (cache, other) := by simpa using here
      simp [here, elsewhere]

/-- A claim is given back. -/
theorem passes_finishFetch (ordered : w.Ordered) (inside : id < w.caches.length)
    (normal : IsNormal folder) (marked : w.isMarked id folder) (entries : Option (List Entry)) :
    w.Passes (some (id, folder)) (w.setCache id ((w.cacheAt id).finishFetch folder entries).2) none
    where
  ordered := ordered.resembles (w.resembles_setCache id _)
  length := Nat.le_of_eq (w.resembles_setCache id _).length.symm
  balance cache other := by
    rw [markCount, markCount, w.isMarked_finishFetch inside normal, listings, listings,
      (w.resembles_setCache id _).background, tick, tick]
    by_cases here : id = cache ∧ folder = other
    · obtain ⟨rfl, rfl⟩ := here
      simp [marked]
    · have elsewhere : ¬ some (id, folder) = some (cache, other) := by simpa using here
      simp [here, elsewhere]

/-- A listing in the background holds the claim on its folder. -/
theorem passes_toBackground {p : Prefetch} (ordered : w.Ordered)
    (inside : p.cache < w.caches.length) (normal : IsNormal p.listing.folder) :
    w.Passes (some (p.cache, p.listing.folder))
      { w with background := w.background ++ [p] } none where
  ordered := by
    refine ⟨ordered.current, fun q member => ?_⟩
    rcases List.mem_append.mp member with old | new
    · exact ordered.background q old
    · rw [List.mem_singleton.mp new]
      exact ⟨inside, normal⟩
  length := Nat.le_refl _
  balance cache folder := by
    simp only [listings, List.countP_append, List.countP_singleton, tick, Option.some.injEq,
      Prod.mk.injEq, decide_eq_true_eq, reduceCtorEq, if_false, Nat.add_zero]
    rfl

theorem Passes.trans {v : World} {held' held'' : Option (Nat × String)}
    (first : w.Passes held w' held') (next : w'.Passes held' v held'') :
    w.Passes held v held'' where
  ordered := next.ordered
  length := Nat.le_trans first.length next.length
  balance cache folder := by
    have := first.balance cache folder
    have := next.balance cache folder
    omega

/-- A listing that begins in the background takes the claim on its folder with it. -/
theorem passes_prefetch (ordered : w.Ordered) (folder : String) :
    w.Passes none (w.prefetch folder).2 none := by
  have normal := isNormal_normalize folder
  simp only [prefetch]
  generalize normalize folder = folder at normal
  split
  · exact (KeepsMarks.refl w).passes ordered
  · next c began =>
    have claimed : ((w.cacheAt w.cache).beginFetch folder).1 = true := by rw [began]
    have taken := passes_beginFetch ordered ordered.current normal claimed
    rw [began] at taken
    have inside := Nat.lt_of_lt_of_le ordered.current taken.length
    exact taken.trans (passes_toBackground (p := ⟨w.cache, w.remote, folder, .asked⟩)
      taken.ordered inside normal)

/-- A listing in the background goes on, or gives its claim back. -/
theorem passes_runPrefetch {p : Prefetch} (ordered : w.Ordered) (inside : p.cache < w.caches.length)
    (normal : IsNormal p.listing.folder) (marked : w.isMarked p.cache p.listing.folder) :
    w.Passes (some (p.cache, p.listing.folder)) (w.runPrefetch p) none := by
  have keeps := w.keepsMarks_advance p.listing
  rw [runPrefetch]
  split
  · next l v goesOn =>
    rw [goesOn] at keeps
    have same := folder_of_advance goesOn
    have passes : w.Passes (some (p.cache, p.listing.folder)) v _ := keeps.passes ordered
    refine passes.trans ?_
    have onward := passes_toBackground (p := { p with listing := l }) passes.ordered
      (Nat.lt_of_lt_of_le inside passes.length) (same ▸ normal)
    rwa [same] at onward
  · next answer v answered =>
    rw [answered] at keeps
    have passes : w.Passes (some (p.cache, p.listing.folder)) v _ := keeps.passes ordered
    refine passes.trans (passes_finishFetch passes.ordered ?_ normal ?_ _)
    · exact Nat.lt_of_lt_of_le inside passes.length
    · rw [keeps.marks]
      exact marked

/-- A fresh cache has no marks, and nobody holds a claim on its folders. -/
theorem passes_switchArea (ordered : w.Ordered) (area : Area) (remote : Option Remote) :
    w.Passes none (w.switchArea area remote) none := by
  have fresh : ∀ (v : World), v.caches = w.caches ++ [.empty] → ∀ cache folder,
      v.isMarked cache folder = w.isMarked cache folder := by
    intro v caches cache folder
    rw [isMarked, isMarked, cacheAt, cacheAt, caches, List.getElem?_append]
    split
    · rfl
    · next beyond =>
      rw [List.getElem?_eq_none (Nat.le_of_not_lt beyond)]
      cases cache - w.caches.length <;> rfl
  refine ⟨⟨?_, ?_⟩, ?_, fun cache folder => ?_⟩
  · cases remote <;> simp [switchArea]
  · intro p member
    have old : p ∈ w.background := by
      cases remote <;> exact member
    obtain ⟨inside, normal⟩ := ordered.background p old
    refine ⟨Nat.lt_of_lt_of_le inside ?_, normal⟩
    cases remote <;> simp [switchArea]
  · cases remote <;> simp [switchArea]
  · rw [markCount, markCount, fresh (w.switchArea area remote) (by cases remote <;> rfl)]
    cases remote <;> rfl

end World

namespace Script

variable {α : Type} {w w' : World} {s s' : Script α} {held : Option (Nat × String)}

/-- A step of an orderly script loses no claim and leaves the script orderly. -/
theorem Step.passes (step : Step w s w' s') (orderly : Orderly w.caches.length held s)
    (ordered : w.Ordered)
    (owned : ∀ cache folder, s.Holds cache folder → w.isMarked cache folder) :
    ∃ held', Orderly w'.caches.length held' s' ∧ w.Passes held w' held' := by
  have unchanged : ∀ {t : Script α}, Orderly w.caches.length none t →
      ∃ held', Orderly w.caches.length held' t ∧ w.Passes none w held' :=
    fun next => ⟨none, next, (World.KeepsMarks.refl w).passes ordered⟩
  cases step with
  | @ask r next =>
    have asks : r.keepsMarks → (∀ a, Orderly w.caches.length none (next a)) →
        ∃ held', Orderly (w.answer r).2.caches.length held' (next (w.answer r).1) ∧
          w.Passes none (w.answer r).2 held' := by
      intro keeps rest
      have keeps := w.keepsMarks_answer keeps
      exact ⟨none, keeps.length ▸ rest _, keeps.passes ordered⟩
    cases orderly with
    | desk rest => exact unchanged ((rest _).mono (Nat.max_le.mpr ⟨Nat.le_refl _, ordered.current⟩))
    | ask plain rest =>
      cases r with
      | prefetch folder =>
        have passes := w.passes_prefetch ordered folder
        exact ⟨none, (rest _).mono passes.length, passes⟩
      | desk | finishFetch => cases plain
      | _ => exact asks rfl rest
    | @finish _ id folder entries _ inside normal rest =>
      have passes := w.passes_finishFetch ordered inside normal (owned _ _ .finish) entries
      rw [← w.answer_finishFetch] at passes
      exact ⟨none, (rest _).mono passes.length, passes⟩
  | @claim _ cache folder next children claimed =>
    cases orderly with
    | claim known rest =>
      cases children with
      | some children =>
        rw [World.eq_of_claim? claimed]
        exact unchanged (known children)
      | none =>
        obtain ⟨began, rfl⟩ := World.beginFetch_of_claim? claimed
        obtain ⟨inside, normal⟩ := rest.inside
        have passes := w.passes_beginFetch ordered inside normal began
        exact ⟨_, rest.mono passes.length, passes⟩
  | @list _ l l' next goesOn =>
    have keeps := w.keepsMarks_advance l
    rw [goesOn] at keeps
    cases orderly with
    | list same rest =>
      have same' := (World.folder_of_advance goesOn).trans same
      exact ⟨_, .list same' fun answer => keeps.length ▸ rest answer, keeps.passes ordered⟩
  | @listed _ l next answer answered =>
    have keeps := w.keepsMarks_advance l
    rw [answered] at keeps
    cases orderly with
    | list same rest => exact ⟨_, keeps.length ▸ rest answer, keeps.passes ordered⟩
  | write a =>
    cases orderly with
    | write rest => exact unchanged (rest a)
  | writeOn left =>
    cases orderly with
    | write rest => exact unchanged (.write rest)
  | flush a =>
    cases orderly with
    | flush rest => exact unchanged (rest a)
  | copy a =>
    cases orderly with
    | copy rest => exact unchanged (rest a)
  | copyOn further =>
    cases orderly with
    | copy rest => exact unchanged (.copy rest)
  | collect a =>
    cases orderly with
    | collect rest => exact unchanged (rest a)
  | collectOn left further =>
    cases orderly with
    | collect rest => exact unchanged (.collect rest)
  | saved a =>
    cases orderly with
    | saved rest => exact unchanged (rest a)
  | release =>
    cases orderly with
    | release rest => exact unchanged rest

end Script

/-- A world in which no folder is marked and nothing runs in the background. -/
structure World.Unclaimed (w : World) : Prop where
  current : w.cache < w.caches.length
  background : w.background = []
  unmarked : ∀ cache folder, w.isMarked cache folder = false

namespace Crew

open Script

open Classical in
/-- The number of those in a list that hold the claim on a folder. -/
noncomputable def holders (scripts : List (Script Unit)) (cache : Nat) (folder : String) : Nat :=
  scripts.countP fun s => decide (s.Holds cache folder)

/-- What holds of every crew that a session comes to: each mark has one owner, or was abandoned by
one of the scripts that were dropped. -/
structure Sound (dropped : List (Script Unit)) (s : Crew) : Prop extends s.world.Ordered where
  orderly : ∀ work ∈ s.works, ∃ held, Orderly s.world.caches.length held work.script
  balance : ∀ cache folder,
    s.world.listings cache folder + holders (s.works.map Work.script) cache folder +
      holders dropped cache folder = s.world.markCount cache folder

section Holders

variable {cache : Nat} {folder : String} {s : Script Unit} {scripts more : List (Script Unit)}

theorem holders_nil : holders [] cache folder = 0 := List.countP_nil

theorem holders_append : holders (scripts ++ more) cache folder =
    holders scripts cache folder + holders more cache folder :=
  List.countP_append

/-- A script counts as one holder if it holds the claim. -/
theorem holders_cons {n : Nat} {held : Option (Nat × String)} (orderly : Orderly n held s) :
    holders (s :: scripts) cache folder = tick held cache folder + holders scripts cache folder := by
  rw [holders, List.countP_cons, Nat.add_comm, tick]
  simp only [decide_eq_true_eq, orderly.holds_iff]
  rfl

/-- There is a holder if and only if some script holds the claim. -/
theorem holders_pos : 0 < holders scripts cache folder ↔ ∃ s ∈ scripts, s.Holds cache folder := by
  simp [holders, List.countP_pos_iff]

end Holders

variable {w w' : World} {works before after : List Work} {dropped : List (Script Unit)}
  {held held' : Option (Nat × String)}

/-- Something happens to the world while nobody has a turn. -/
theorem Sound.passes (sound : Sound dropped ⟨w, works⟩) (passes : w.Passes none w' none) :
    Sound dropped ⟨w', works⟩ where
  toOrdered := passes.ordered
  orderly work member := by
    obtain ⟨held, orderly⟩ := sound.orderly work member
    exact ⟨held, orderly.mono passes.length⟩
  balance cache folder := by
    have := sound.balance cache folder
    have := passes.balance cache folder
    dsimp only at *
    omega

/-- A marked folder is marked once, so whoever holds its claim is the only one. -/
theorem Sound.isMarked {s : Crew} {cache : Nat} {folder : String} (sound : Sound dropped s)
    (owned : 0 < s.world.listings cache folder + holders (s.works.map Work.script) cache folder) :
    s.world.isMarked cache folder := by
  have balance := sound.balance cache folder
  rw [World.markCount] at balance
  cases marked : s.world.isMarked cache folder with
  | true => rfl
  | false =>
    rw [marked, Bool.toNat_false] at balance
    omega

private theorem holders_works {isCommand : Bool} {s : Script Unit} {n : Nat}
    (orderly : Orderly n held s) (cache : Nat) (folder : String) :
    holders ((before ++ ⟨isCommand, s⟩ :: after).map Work.script) cache folder =
      tick held cache folder + holders ((before ++ after).map Work.script) cache folder := by
  rw [List.map_append, List.map_cons, holders_append, holders_cons orderly, List.map_append,
    holders_append]
  omega

/-- A piece of work has its turn. -/
theorem Sound.turn {isCommand : Bool} {s s' : Script Unit}
    (sound : Sound dropped ⟨w, before ++ ⟨isCommand, s⟩ :: after⟩)
    (orderly : Orderly w.caches.length held s) (orderly' : Orderly w'.caches.length held' s')
    (passes : w.Passes held w' held') :
    Sound dropped ⟨w', before ++ ⟨isCommand, s'⟩ :: after⟩ where
  toOrdered := passes.ordered
  orderly work member := by
    rcases List.mem_append.mp member with old | later
    · obtain ⟨held, orderly⟩ := sound.orderly work (List.mem_append_left _ old)
      exact ⟨held, orderly.mono passes.length⟩
    · rcases List.mem_cons.mp later with rfl | old
      · exact ⟨held', orderly'⟩
      · obtain ⟨held, orderly⟩ := sound.orderly work
          (List.mem_append_right _ (List.mem_cons_of_mem _ old))
        exact ⟨held, orderly.mono passes.length⟩
  balance cache folder := by
    have := sound.balance cache folder
    have := passes.balance cache folder
    dsimp only at *
    rw [holders_works orderly] at *
    rw [holders_works orderly']
    omega

end Crew

/-- A piece of work is orderly when it begins, and holds no claim. -/
theorem Work.Begins.orderly {aliases : List (String × String)} {w : World} {work : Work}
    (begins : work.Begins (.withProbes aliases) w) (ordered : w.Ordered) :
    Script.Orderly w.caches.length none work.script := by
  cases begins with
  | preparation p => exact (Prepared.orderly_ofPipeline p).bind fun _ _ _ => .done
  | command args found =>
    exact (Registry.orderly_withProbes found args).bind fun _ _ _ => .done
  | closing wiring verdict =>
    exact (Execution.orderly_closing wiring verdict).bind fun _ _ _ => .done
  | children folder =>
    exact (orderly_ensureChildren ordered.current _ folder).bind fun _ _ _ => .done
  | preload folder depth =>
    exact (orderly_preload ordered.current _ folder depth).bind fun _ _ _ => .done

/-- Changes from outside neither set a mark nor take one away. -/
theorem Cache.Changes.isSome_flight? {c c' : Cache} (changes : c.Changes c') (folder : String) :
    (c'.flight? folder).isSome = (c.flight? folder).isSome := by
  cases changes with
  | add e path => exact isSome_flight?_add c path folder e
  | addChildren other entries => exact isSome_flight?_addChildren c other folder entries
  | invalidate other => exact isSome_flight?_invalidate c other folder
  | remove path => exact isSome_flight?_remove c path folder
  | clear => exact isSome_flight?_clear c folder

namespace Crew

open Script

variable {aliases : List (String × String)} {s t : Crew} {dropped more : List (Script Unit)}

/-- One listing in the background has its turn. -/
theorem passes_background {w : World} {before after : List Prefetch} {p : Prefetch}
    (ordered : w.Ordered) (found : w.background = before ++ p :: after)
    (marked : w.isMarked p.cache p.listing.folder) :
    w.Passes none ({ w with background := before ++ after }.runPrefetch p) none := by
  obtain ⟨inside, normal⟩ := ordered.background p (by simp [found])
  have rest : ({ w with background := before ++ after } : World).Ordered := by
    refine ⟨ordered.current, fun q member => ordered.background q ?_⟩
    rw [found]
    exact (List.sublist_cons_self p after).append_left before |>.mem member
  have passes := World.passes_runPrefetch rest inside normal marked
  refine ⟨passes.ordered, passes.length, fun cache folder => ?_⟩
  have balance := passes.balance cache folder
  have listed : w.listings cache folder =
      World.listings { w with background := before ++ after } cache folder +
        tick (some (p.cache, p.listing.folder)) cache folder := by
    simp only [World.listings, found, List.countP_append, List.countP_cons, tick,
      decide_eq_true_eq, Option.some.injEq, Prod.mk.injEq]
    omega
  rw [listed]
  exact balance

/-- Whatever happens to a crew, each mark keeps its owner or is abandoned. -/
theorem Step.sound (step : Step (.withProbes aliases) s more t) (sound : Sound dropped s) :
    Sound (dropped ++ more) t := by
  cases step with
  | begin begins =>
    rw [List.append_nil]
    have orderly := begins.orderly sound.toOrdered
    refine ⟨sound.toOrdered, fun work member => ?_, fun cache folder => ?_⟩
    · rcases List.mem_append.mp member with old | later
      · exact sound.orderly work (List.mem_append_left _ old)
      · rcases List.mem_cons.mp later with rfl | old
        · exact ⟨none, orderly⟩
        · exact sound.orderly work (List.mem_append_right _ old)
    · rw [holders_works orderly]
      simpa [tick] using sound.balance cache folder
  | @go w w' before after isCommand s s' step =>
    rw [List.append_nil]
    obtain ⟨held, orderly⟩ := sound.orderly _ List.mem_append_cons_self
    have owned : ∀ cache folder, s.Holds cache folder → w.isMarked cache folder := by
      intro cache folder holds
      refine sound.isMarked (Nat.add_pos_right _ (holders_pos.mpr ⟨s, ?_, holds⟩))
      simp
    obtain ⟨held', orderly', passes⟩ := step.passes orderly sound.toOrdered owned
    exact sound.turn orderly orderly' passes
  | finish =>
    rw [List.append_nil]
    refine ⟨sound.toOrdered, fun work member => sound.orderly work ?_, fun cache folder => ?_⟩
    · exact (List.sublist_cons_self _ _).append_left _ |>.mem member
    · have balance := sound.balance cache folder
      rw [holders_works (.done (n := 0))] at balance
      simpa [tick] using balance
  | @drop w before after s waits =>
    obtain ⟨held, orderly⟩ := sound.orderly _ List.mem_append_cons_self
    refine ⟨sound.toOrdered, fun work member => sound.orderly work ?_, fun cache folder => ?_⟩
    · exact (List.sublist_cons_self _ _).append_left _ |>.mem member
    · have balance := sound.balance cache folder
      rw [holders_works orderly] at balance
      rw [holders_append, holders_cons orderly, holders_nil]
      dsimp only at *
      omega
  | prefetch folder =>
    rw [List.append_nil]
    exact sound.passes (World.passes_prefetch sound.toOrdered folder)
  | @background w works before p after found =>
    rw [List.append_nil]
    refine sound.passes (passes_background sound.toOrdered found ?_)
    refine sound.isMarked (Nat.add_pos_left (List.countP_pos_iff.mpr ⟨p, ?_, ?_⟩) _)
    · exact found ▸ List.mem_append_cons_self
    · simp
  | change changes =>
    rw [List.append_nil]
    exact sound.passes
      ((World.keepsMarks_setCache changes.isSome_flight?).passes sound.toOrdered)
  | switch area remote =>
    rw [List.append_nil]
    exact sound.passes (World.passes_switchArea sound.toOrdered area remote)
  | elsewhere caches current background =>
    rw [List.append_nil]
    have keeps : World.KeepsMarks _ _ := ⟨⟨current, congrArg List.length caches, background⟩,
      fun id folder => by rw [World.isMarked, World.isMarked, World.cacheAt, World.cacheAt, caches]⟩
    exact sound.passes (keeps.passes sound.toOrdered)

/-- A crew that begins in a world without claims is sound whatever happens to it. -/
theorem Run.sound {w : World} (unclaimed : w.Unclaimed)
    (run : Run (.withProbes aliases) ⟨w, []⟩ dropped s) : Sound dropped s := by
  generalize start : (⟨w, []⟩ : Crew) = first at run
  induction run with
  | refl =>
    subst start
    refine ⟨⟨unclaimed.current, ?_⟩, ?_, fun cache folder => ?_⟩
    · simp [unclaimed.background]
    · simp
    · simp [World.listings, World.markCount, unclaimed.background, unclaimed.unmarked, holders]
  | step _ step ih => exact step.sound ih

/-- Whoever holds a claim is counted. -/
theorem owned_iff {cache : Nat} {folder : String} : s.Owned cache folder ↔
    0 < s.world.listings cache folder + holders (s.works.map Work.script) cache folder := by
  rw [Owned, Nat.add_pos_iff_pos_or_pos, holders_pos, World.listings, List.countP_pos_iff]
  simp only [decide_eq_true_eq]
  refine or_congr Iff.rfl ⟨?_, ?_⟩
  · rintro ⟨work, member, holds⟩
    exact ⟨work.script, List.mem_map_of_mem member, holds⟩
  · rintro ⟨script, member, holds⟩
    obtain ⟨work, listed, rfl⟩ := List.mem_map.mp member
    exact ⟨work, listed, holds⟩

end Crew

end StoreShell
