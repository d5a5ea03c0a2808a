import StoreShell.Children
import StoreShell.Proofs.ClientCommands
import StoreShell.Proofs.Marks

/-! # Looking around

Listings, whether somebody waits for them or not, change caches and records of calls, and let time
pass. Every store stays as it is, and so does all that lines choose, as the working directory.
`World.KeepsStores` says so. A task that `Looks` keeps all this and uses no streams, however it
ends; the opening of redirections and the expansion of patterns are such tasks.
-/

namespace StoreShell

open StoreShell.Path

/-- Whether a request leaves the stores as they are and chooses nothing for the shell. -/
def Request.looks : Request → Bool
  | .desk | .known .. | .matching .. | .note .. | .forget .. | .forgetStale .. | .finishFetch ..
  | .stat .. | .read .. => true
  | .enter _ | .prefetch _ | .cancel | .upload .. | .makeFolder .. | .remove .. | .rename .. => false

/-- What a remote store finds in a folder is what the store lists, in some order. -/
theorem Remote.look_cases (r : Remote) (folder : String) :
    (∃ failure, r.store.list folder = .error failure ∧ r.look folder = .error failure) ∨
      ∃ listed entries, r.store.list folder = .ok listed ∧ r.look folder = .ok entries ∧
        entries.Perm listed := by
  rw [look]
  cases r.store.list folder with
  | error failure => exact Or.inl ⟨failure, rfl, rfl⟩
  | ok listed =>
    refine Or.inr ⟨listed, _, rfl, rfl, ?_⟩
    split
    · exact listed.reverse_perm
    · exact .refl _

namespace World

variable {w w' w'' : World}

/-- Whether a world has the stores of another one, and the choices that were made there. -/
structure KeepsStores (w w' : World) : Prop where
  stores : w'.remotes.map Remote.store = w.remotes.map Remote.store
  cwd : w'.cwd = w.cwd
  settings : w'.settings = w.settings
  cache : w'.cache = w.cache
  remote : w'.remote = w.remote
  cancelled : w'.cancelled = w.cancelled

namespace KeepsStores

theorem refl (w : World) : w.KeepsStores w := ⟨rfl, rfl, rfl, rfl, rfl, rfl⟩

theorem trans (first : w.KeepsStores w') (next : w'.KeepsStores w'') : w.KeepsStores w'' where
  stores := next.stores.trans first.stores
  cwd := next.cwd.trans first.cwd
  settings := next.settings.trans first.settings
  cache := next.cache.trans first.cache
  remote := next.remote.trans first.remote
  cancelled := next.cancelled.trans first.cancelled

end KeepsStores

theorem keepsStores_setCache (w : World) (id : Nat) (c : Cache) : w.KeepsStores (w.setCache id c) :=
  ⟨rfl, rfl, rfl, rfl, rfl, rfl⟩

theorem keepsStores_clock (w : World) (clock : Nat) : w.KeepsStores { w with clock } :=
  ⟨rfl, rfl, rfl, rfl, rfl, rfl⟩

theorem keepsStores_background (w : World) (background : List Prefetch) :
    w.KeepsStores { w with background } :=
  ⟨rfl, rfl, rfl, rfl, rfl, rfl⟩

/-- A service with the same store takes the place of another one. -/
theorem keepsStores_setRemote {id : Nat} {r : Remote} (same : r.store = (w.remoteAt id).store) :
    w.KeepsStores (w.setRemote id r) := by
  refine ⟨?_, rfl, rfl, rfl, rfl, rfl⟩
  apply List.ext_getElem?
  intro i
  rw [World.setRemote, List.getElem?_map, List.getElem?_map, List.getElem?_set]
  split
  · next here =>
    subst here
    rw [remoteAt] at same
    cases found : w.remotes[id]? with
    | none => rw [if_neg (Nat.not_lt.mpr (List.getElem?_eq_none_iff.mp found))]
    | some old =>
      rw [found] at same
      rw [if_pos (List.getElem?_eq_some_iff.mp found).1, Option.map_some, Option.map_some, same]
      rfl
  · rfl

/-- A question leaves a record and uses up faults, and changes no store. -/
theorem keepsStores_query {α : Type} (w : World) (id : Nat) (call : Call)
    (look : Store → Except Failure α) : w.KeepsStores (w.onRemote id (·.query call look)).2 :=
  keepsStores_setRemote ((w.remoteAt id).store_query call look)

/-! ### Listings and time -/

/-- What goes with a listing happens to caches only. -/
theorem keepsStores_arrive (w : World) (l : Listing) : w.KeepsStores (w.arrive l) :=
  (w.keepsStores_setCache _ _).trans (keepsStores_setRemote rfl)

theorem keepsStores_request (w : World) (l : Listing) : w.KeepsStores (w.request l).2 := by
  have same : ((w.remoteAt l.remote).receive (.listFolder l.folder)).2.store =
      (w.remoteAt l.remote).store := rfl
  rw [World.request]
  generalize (w.remoteAt l.remote).receive (.listFolder l.folder) = received at same
  obtain ⟨answer, r⟩ := received
  cases answer with
  | error failure => exact keepsStores_setRemote same
  | ok _ => exact keepsStores_setRemote same

private theorem keepsStores_advanceAnswered (w : World) (l : Listing)
    (answer : Except Failure (List Entry)) (due : Nat) :
    w.KeepsStores (w.advanceAnswered l answer due).2 := by
  rw [advanceAnswered]
  split
  · exact w.keepsStores_arrive l
  · exact .refl w

private theorem keepsStores_advanceUnderWay (w : World) (l : Listing) (due : Nat) :
    w.KeepsStores (w.advanceUnderWay l due).2 := by
  rw [advanceUnderWay]
  split
  · exact w.keepsStores_advanceAnswered l _ _
  · exact .refl w

/-- A listing that goes on changes no store. -/
theorem keepsStores_advance (w : World) (l : Listing) : w.KeepsStores (w.advance l).2 := by
  rw [advance]
  split
  · have called := w.keepsStores_request l
    generalize w.request l = requested at called
    obtain ⟨answer, v⟩ := requested
    cases answer with
    | error failure => exact called
    | ok _ => exact called.trans (v.keepsStores_advanceUnderWay l _)
  · exact w.keepsStores_advanceUnderWay l _
  · exact w.keepsStores_advanceAnswered l _ _

private theorem keepsStores_runPrefetch (w : World) (p : Prefetch) :
    w.KeepsStores (w.runPrefetch p) := by
  have advanced := w.keepsStores_advance p.listing
  rw [runPrefetch]
  generalize w.advance p.listing = progress at advanced
  obtain ⟨result, v⟩ := progress
  cases result with
  | inl listing => exact advanced.trans (v.keepsStores_background _)
  | inr answer => exact advanced.trans (v.keepsStores_setCache _ _)

/-- The background only lists folders. -/
theorem keepsStores_runBackground (w : World) : w.KeepsStores w.runBackground := by
  have turns : ∀ (ps : List Prefetch) (v : World), v.KeepsStores (ps.foldl runPrefetch v) := by
    intro ps
    induction ps with
    | nil => exact fun v => .refl v
    | cons p rest ih => exact fun v => (v.keepsStores_runPrefetch p).trans (ih _)
  exact (w.keepsStores_background []).trans (turns w.background _)

private theorem keepsStores_waitUntilIn (time turns : Nat) (w : World) :
    w.KeepsStores (waitUntilIn time turns w) := by
  induction turns generalizing w with
  | zero => exact w.keepsStores_clock _
  | succ turns ih =>
    have background := w.keepsStores_runBackground
    rw [waitUntilIn]
    split
    · exact background.trans (keepsStores_clock _ _)
    · split
      · exact (background.trans (keepsStores_clock _ _)).trans (ih _)
      · exact background.trans (keepsStores_clock _ _)

/-- Stores do not change while time passes. -/
theorem keepsStores_waitUntil (w : World) (time : Nat) : w.KeepsStores (w.waitUntil time) := by
  rw [waitUntil]
  split
  · exact .refl w
  · exact keepsStores_waitUntilIn time _ w

theorem keepsStores_claim? {cache : Nat} {folder : String} {children : Option (List Entry)}
    (claimed : w.claim? cache folder = some (children, w')) : w.KeepsStores w' := by
  rw [claim?] at claimed
  split at claimed
  · cases claimed
    exact .refl w
  · split at claimed
    · cases claimed
      exact w.keepsStores_setCache _ _
    · cases claimed

private theorem keepsStores_awaitClaimIn {cache : Nat} {folder : String} {turns : Nat}
    {children : Option (List Entry)}
    (awaited : awaitClaimIn cache folder turns w = some (children, w')) : w.KeepsStores w' := by
  induction turns generalizing w with
  | zero => exact keepsStores_claim? awaited
  | succ turns ih =>
    have background := w.keepsStores_runBackground
    rw [awaitClaimIn] at awaited
    split at awaited
    · next here =>
      cases awaited
      exact keepsStores_claim? here
    · dsimp only at awaited
      split at awaited
      · next later =>
        cases awaited
        exact background.trans (keepsStores_claim? later)
      · split at awaited
        · cases awaited
        · exact (background.trans (keepsStores_clock _ _)).trans (ih awaited)

/-- Waiting for a folder changes no store. -/
theorem keepsStores_awaitClaim {cache : Nat} {folder : String} {children : Option (List Entry)}
    (awaited : w.awaitClaim cache folder = some (children, w')) : w.KeepsStores w' :=
  keepsStores_awaitClaimIn awaited

private theorem keepsStores_awaitUnderWay (w : World) (l : Listing) (due : Nat) :
    w.KeepsStores (w.awaitUnderWay l due).2 :=
  ((w.keepsStores_waitUntil due).trans (keepsStores_waitUntil _ _)).trans (keepsStores_arrive _ _)

theorem keepsStores_awaitListing (w : World) (l : Listing) :
    w.KeepsStores (w.awaitListing l).2 := by
  rw [awaitListing]
  split
  · have called := w.keepsStores_request l
    generalize w.request l = requested at called
    obtain ⟨answer, v⟩ := requested
    cases answer with
    | error failure => exact called
    | ok _ => exact called.trans (v.keepsStores_awaitUnderWay l _)
  · exact w.keepsStores_awaitUnderWay l _
  · exact (w.keepsStores_waitUntil _).trans (keepsStores_arrive _ _)

/-- A request that looks leaves the stores as they are. -/
theorem keepsStores_answer (w : World) {r : Request} (looks : r.looks) :
    w.KeepsStores (w.answer r).2 := by
  cases r with
  | enter | prefetch | cancel | upload | makeFolder | remove | rename => cases looks
  | desk | known | matching => exact .refl w
  | note | forget | forgetStale => exact w.keepsStores_setCache _ _
  | finishFetch cache folder entries =>
    rw [answer_finishFetch]
    exact w.keepsStores_setCache _ _
  | stat remote path => exact w.keepsStores_query remote _ _
  | read remote path => exact w.keepsStores_query remote _ _

end World

/-! ### Tasks that look -/

/-- Whether a task leaves its streams and all stores as they are, however it ends. -/
def Task.Looks (t : Task α) : Prop :=
  ∀ scene result scene', t.toScript.run? scene = some (result, scene') →
    scene.world.KeepsStores scene'.world ∧ scene' = { scene with world := scene'.world }

namespace Task

variable {α β : Type}

theorem looks_pure (a : α) : Looks (pure a : Task α) := by
  intro scene result scene' ran
  cases ran
  exact ⟨.refl _, rfl⟩

theorem looks_throw (failure : Failure) : Looks (throw failure : Task α) := by
  intro scene result scene' ran
  cases ran
  exact ⟨.refl _, rfl⟩

theorem looks_of_except (result : Except Failure α) : Looks (ofScript (.done result)) := by
  cases result with
  | ok a => exact looks_pure a
  | error failure => exact looks_throw failure

theorem Looks.andThen {t : Task α} {f : α → Task β} (first : Looks t) (next : ∀ a, Looks (f a)) :
    Looks (t >>= f) := by
  intro scene result scene' ran
  rw [run?_andThen] at ran
  obtain ⟨⟨found, between⟩, before, after⟩ := Option.bind_eq_some_iff.mp ran
  obtain ⟨kept, streams⟩ := first _ _ _ before
  cases found with
  | error failure =>
    cases after
    exact ⟨kept, streams⟩
  | ok a =>
    obtain ⟨further, same⟩ := next a _ _ _ after
    constructor
    · exact kept.trans further
    · rw [same, streams]

theorem Looks.attempt {t : Task α} (looks : Looks t) : Looks (attempt t) := by
  intro scene result scene' ran
  rw [run?_attempt] at ran
  obtain ⟨⟨found, between⟩, before, after⟩ := Option.map_eq_some_iff.mp ran
  cases after
  exact looks _ _ _ before

theorem looks_ask {r : Request} (looks : r.looks) : Looks (ask r) := by
  intro scene result scene' ran
  cases ran
  exact ⟨scene.world.keepsStores_answer looks, rfl⟩

theorem looks_request {r : Request} (looks : r.looks)
    {next : r.Answer → Script (Except Failure α)} (goesOn : ∀ answer, Looks (next answer)) :
    Looks (Script.ask r next : Script (Except Failure α)) := by
  intro scene result scene' ran
  obtain ⟨kept, streams⟩ := goesOn _ _ _ _ ran
  exact ⟨(scene.world.keepsStores_answer looks).trans kept, streams⟩

/-! ### Listing folders -/

theorem looks_claim {cache : Nat} {folder : String}
    {next : Option (List Entry) → Script (Except Failure α)}
    (goesOn : ∀ children, Looks (next children)) :
    Looks (Script.claim cache folder next : Script (Except Failure α)) := by
  intro scene result scene' ran
  change (Script.claim cache folder next).run? scene = _ at ran
  rw [Script.run?] at ran
  split at ran
  · cases ran
  · next children w claimed =>
    obtain ⟨kept, streams⟩ := goesOn _ _ _ _ ran
    exact ⟨(World.keepsStores_awaitClaim claimed).trans kept, streams⟩

theorem looks_list {l : Listing} {next : Except Failure (List Entry) → Script (Except Failure α)}
    (goesOn : ∀ answer, Looks (next answer)) :
    Looks (Script.list l next : Script (Except Failure α)) := by
  intro scene result scene' ran
  obtain ⟨kept, streams⟩ := goesOn _ _ _ _ ran
  exact ⟨(scene.world.keepsStores_awaitListing l).trans kept, streams⟩

private theorem looks_listOnce {cache remote : Nat} {folder : String}
    {whenStale : List Entry → Script (Except Failure (List Entry))}
    (goesOn : ∀ entries, Looks (whenStale entries)) :
    Looks (listOnce cache remote folder whenStale) := by
  refine looks_claim fun children => ?_
  cases children with
  | some children => exact looks_pure children
  | none =>
    refine looks_list fun answer => ?_
    cases answer with
    | error failure => exact looks_request rfl fun _ => looks_throw failure
    | ok entries =>
      refine looks_request rfl fun children => ?_
      cases children with
      | some children => exact looks_pure children
      | none => exact goesOn entries

/-- Getting the children of a folder changes caches, but no store. -/
theorem looks_ensureChildren (cache remote : Nat) (folder : String) :
    Looks (ensureChildren cache remote folder) := by
  have attempts : ∀ again, Looks (ensureChildrenIn cache remote (normalize folder) again) := by
    intro again
    induction again with
    | zero => exact looks_listOnce fun _ => looks_pure _
    | succ again ih => exact looks_listOnce fun _ => ih
  exact attempts _

/-! ### Looking one after the other -/

variable {t : Task α} {f : α → Task β} {w w' : World}

/-- Whether a task fails in a world. -/
def Fails (t : Task α) (w : World) : Prop :=
  ∃ failure w', w.run? t.toScript = some (.error failure, w')

/-- Whether a task succeeds in a world and leads to another one. -/
def Succeeds (t : Task α) (w w' : World) : Prop := ∃ a, w.run? t.toScript = some (.ok a, w')

/-- The world that a task comes to after it has looked has the same stores. -/
theorem Looks.keepsStores {result : Except Failure α} (looks : Looks t)
    (ran : w.run? t.toScript = some (result, w')) : w.KeepsStores w' := by
  obtain ⟨⟨_, scene⟩, ends, same⟩ := Option.map_eq_some_iff.mp ran
  cases same
  exact (looks _ _ _ ends).1

/-- What follows a task that looks goes on in its world, with the same streams. -/
theorem run?_of_looks {result : Except Failure α} (looks : Looks t)
    (ran : w.run? t.toScript = some (result, w')) :
    w.run? (t >>= f).toScript = (match result with
      | .ok a => w'.run? (f a).toScript
      | .error failure => some (.error failure, w')) := by
  obtain ⟨⟨_, scene⟩, ends, same⟩ := Option.map_eq_some_iff.mp ran
  cases same
  have streams := (looks _ _ _ ends).2
  rw [World.run?, run?_andThen, ends, Option.bind_some]
  cases result with
  | error failure => rfl
  | ok a => exact congrArg (fun scene => ((f a).toScript.run? scene).map _) streams

/-- If the first part fails, so does the whole, and nothing that follows is done. -/
theorem Fails.andThen (looks : Looks t) (fails : Fails t w) : Fails (t >>= f) w := by
  obtain ⟨failure, w', ran⟩ := fails
  exact ⟨failure, w', run?_of_looks looks ran⟩

/-- If the first part succeeds and what follows fails, the whole fails. -/
theorem Succeeds.andThen (looks : Looks t) (succeeds : Succeeds t w w')
    (next : ∀ a, w.run? t.toScript = some (.ok a, w') → Fails (f a) w') : Fails (t >>= f) w := by
  obtain ⟨a, ran⟩ := succeeds
  obtain ⟨failure, w'', failed⟩ := next a ran
  exact ⟨failure, w'', (run?_of_looks looks ran).trans failed⟩

end Task

end StoreShell
