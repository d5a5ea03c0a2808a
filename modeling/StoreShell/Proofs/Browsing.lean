import StoreShell.Proofs.CacheConsistency
import StoreShell.Proofs.Looking
import StoreShell.Proofs.Sessions

/-! # Browsing a store that nobody disturbs

Where nothing runs in the background and the service answers always alike, a folder that is not known
has the children that listing it comes to, however long the answers take and in whatever order the
entries come. `World.Still` holds of such a world, and browsing leaves it still. If no call fails
either, the world is `World.Calm`, and a folder has the children that the store lists there, whatever
the cache knows before.
-/

namespace StoreShell

open StoreShell.Path

/-- Whether a script ends with a result after it has asked the world for nothing but what changes
nothing. -/
inductive Script.Tells {α : Type} (w : World) (a : α) : Script α → Prop where
  | done : Tells w a (.done a)
  | ask {r next} : (w.answer r).2 = w → Tells w a (next (w.answer r).1) → Tells w a (.ask r next)

theorem Script.Tells.bind {α β : Type} {w : World} {s : Script α} {f : α → Script β} {a : α} {b : β}
    (tells : s.Tells w a) (next : (f a).Tells w b) : (s.bind f).Tells w b := by
  induction tells with
  | done => exact next
  | ask same _ ih => exact .ask same ih

namespace Task

variable {α β : Type} {w w' w'' : World}

/-- Whether a task succeeds with a result after it has only looked at the world. -/
def Tells (t : Task α) (w : World) (a : α) : Prop := t.toScript.Tells w (.ok a)

theorem tells_pure (a : α) (w : World) : Tells (pure a) w a := .done

/-- A question that leaves the world as it is has only looked at it. -/
theorem tells_ask {r : Request} (same : (w.answer r).2 = w) : Tells (ask r) w (w.answer r).1 :=
  .ask same .done

theorem Tells.andThen {t : Task α} {f : α → Task β} {a : α} {b : β} (first : Tells t w a)
    (next : Tells (f a) w b) : Tells (t >>= f) w b :=
  Script.Tells.bind first next

/-- Whether a task succeeds with a result and leads to a world, without any use of streams. -/
def Finds (t : Task α) (w : World) (a : α) (w' : World) : Prop :=
  ∀ scene : Scene, scene.world = w →
    t.toScript.run? scene = some (.ok a, { scene with world := w' })

theorem finds_pure (a : α) (w : World) : Finds (pure a) w a w := by
  rintro scene rfl
  rfl

theorem finds_ask (r : Request) (w : World) : Finds (ask r) w (w.answer r).1 (w.answer r).2 := by
  rintro scene rfl
  rfl

/-- What only looks leaves the world as it is. -/
theorem Tells.finds {t : Task α} {a : α} (tells : Tells t w a) : Finds t w a w := by
  rintro scene rfl
  rw [Tells] at tells
  generalize t.toScript = s at tells ⊢
  induction tells with
  | done => rfl
  | @ask r next same _ ih =>
    change (next (scene.world.answer r).1).run? { scene with world := (scene.world.answer r).2 } = _
    rw [same]
    exact ih

theorem Finds.andThen {t : Task α} {f : α → Task β} {a : α} {b : β} (first : Finds t w a w')
    (next : Finds (f a) w' b w'') : Finds (t >>= f) w b w'' := by
  intro scene here
  rw [run?_andThen, first scene here]
  exact next { scene with world := w' } rfl

/-- An attempt finds whatever the task ends with. -/
theorem finds_attempt {t : Task α} {result : Except Failure α}
    (runs : ∀ scene : Scene, scene.world = w →
      t.toScript.run? scene = some (result, { scene with world := w' })) :
    Finds (attempt t) w result w' := by
  intro scene here
  rw [run?_attempt, runs scene here]
  rfl

/-- What a task finds is what it ends with if it is run alone. -/
theorem Finds.run? {t : Task α} {a : α} (finds : Finds t w a w') :
    w.run? t.toScript = some (.ok a, w') := by
  rw [World.run?, finds _ rfl]
  rfl

end Task

/-- Getting the children of a folder that can be claimed comes to what its listing comes to, if that is
not stale. -/
theorem Task.finds_ensureChildren_of_claim {w w₁ w₂ : World} {cache remote : Nat} {folder : String}
    {answer : Except Failure (List Entry)} {after : Cache} (children : List Entry)
    (normal : IsNormal folder) (claim : w.claim? cache folder = some (none, w₁))
    (waited : w₁.awaitListing ⟨remote, folder, .asked⟩ = (answer, w₂))
    (finished : (w₂.cacheAt cache).finishFetch folder answer.toOption = (answer.isOk, after))
    (told : answer.isOk → after.children? folder = some children) :
    (attempt (ensureChildren cache remote folder)).Finds w (answer.map fun _ => children)
      (w₂.setCache cache after) := by
  refine finds_attempt ?_
  rintro scene rfl
  cases answer with
  | error failure =>
    change (w₂.cacheAt cache).finishFetch folder none = (false, after) at finished
    simp only [ensureChildren, normalize_of_isNormal normal, toScript, ExceptT.run, listingAttempts,
      ensureChildrenIn, listOnce, Script.run?, Script.awaitClaim_of_claim? claim, waited,
      World.answer, World.onCache, finished]
    rfl
  | ok entries =>
    change (w₂.cacheAt cache).finishFetch folder (some entries) = (true, after) at finished
    simp only [ensureChildren, normalize_of_isNormal normal, toScript, ExceptT.run, listingAttempts,
      ensureChildrenIn, listOnce, Script.run?, Script.awaitClaim_of_claim? claim, waited,
      World.answer, World.onCache, finished, told rfl]
    rfl

/-! ### Services that answer alike -/

namespace Remote

/-- How the service fails to list a folder, if it does. -/
def refusal? (r : Remote) (folder : String) : Option Failure :=
  (Fault.take (.listFolder folder) r.faults).1

/-- What the service answers if a folder is listed. -/
def answerTo (r : Remote) (folder : String) : Except Failure (List Entry) :=
  match r.refusal? folder with
  | some failure => .error failure
  | none => r.look folder

/-- What listing a folder comes to, with the entries by name. -/
def listing (r : Remote) (folder : String) : Except Failure (List Entry) :=
  match r.refusal? folder with
  | some failure => .error failure
  | none => r.store.list folder

/-- The service answers with the entries in some order. -/
theorem answerTo_cases (r : Remote) (folder : String) :
    (∃ failure, r.listing folder = .error failure ∧ r.answerTo folder = .error failure) ∨
      ∃ listed entries, r.listing folder = .ok listed ∧ r.store.list folder = .ok listed ∧
        r.answerTo folder = .ok entries ∧ entries.Perm listed := by
  rw [listing, answerTo]
  cases r.refusal? folder with
  | some failure => exact Or.inl ⟨failure, rfl, rfl⟩
  | none =>
    refine (r.look_cases folder).imp id ?_
    rintro ⟨listed, entries, done, found, shuffled⟩
    exact ⟨listed, entries, done, done, found, shuffled⟩

/-- A service that answers the same call always alike and does nothing to the cache of the client
while folders are listed. -/
structure Constant (r : Remote) : Prop where
  lasting : ∀ f ∈ r.faults, f.left = none
  churn : r.churn = []

private theorem snd_take_of_lasting {faults : List Fault} (lasting : ∀ f ∈ faults, f.left = none)
    (call : Call) : (Fault.take call faults).2 = faults := by
  induction faults with
  | nil => rfl
  | cons f rest ih =>
    rw [Fault.take]
    split
    · obtain ⟨method, path, failure, left⟩ := f
      obtain rfl : left = none := lasting _ (List.mem_cons_self ..)
      rfl
    · exact congrArg (f :: ·) (ih fun other member => lasting other (List.mem_cons_of_mem _ member))

/-- A service with constant faults fails the same calls every time. -/
theorem Constant.receive {r : Remote} (constant : r.Constant) (folder : String) :
    r.receive (.listFolder folder) =
      (match r.refusal? folder with | some failure => .error failure | none => .ok (),
        { r with calls := .listFolder folder :: r.calls }) := by
  have taken : Fault.take (.listFolder folder) r.faults = (r.refusal? folder, r.faults) :=
    Prod.ext rfl (snd_take_of_lasting constant.lasting _)
  cases refused : r.refusal? folder with
  | none | some failure => simp only [Remote.receive, taken, refused]

end Remote

namespace World

variable {w : World} {cache remote : Nat} {s : Store}

/-- A world where nothing runs in the background and the numbered remote store answers every call as
its store does. It may take its time and list in either order. -/
structure Faithful (remote : Nat) (w : World) : Prop where
  remoteKept : remote < w.remotes.length
  background : w.background = []
  faults : (w.remoteAt remote).faults = []
  churn : (w.remoteAt remote).churn = []

/-- With nothing in the background, waiting is letting time pass. -/
theorem waitUntil_of_background (nobody : w.background = []) (time : Nat) :
    w.waitUntil time = { w with clock := max w.clock time } := by
  rw [waitUntil]
  split
  · next past => rw [max_eq_left past]
  · have turn : w.backgroundTurns = 0 + 1 := by rw [backgroundTurns, nobody]; rfl
    have still : w.runBackground = w := by
      rw [runBackground, nobody]
      exact congrArg (fun background => { w with background }) nobody.symm
    have never : w.nextDue? = none := by rw [nextDue?, nobody]; rfl
    rw [turn, waitUntilIn, still, never]

/-- A listing that is waited for goes into the record of the service and lets time pass. -/
theorem awaitListing_of_constant (remoteKept : remote < w.remotes.length)
    (background : w.background = []) (constant : (w.remoteAt remote).Constant) (folder : String) :
    ∃ clock listings, w.awaitListing ⟨remote, folder, .asked⟩ =
      ((w.remoteAt remote).answerTo folder,
        { w.setRemote remote { w.remoteAt remote with
            calls := .listFolder folder :: (w.remoteAt remote).calls, listings } with clock }) := by
  have received := constant.receive folder
  cases refused : (w.remoteAt remote).refusal? folder with
  | some failure =>
    rw [refused] at received
    refine ⟨w.clock, (w.remoteAt remote).listings, ?_⟩
    simp only [World.awaitListing, World.request, received, Remote.answerTo, refused]
    rfl
  | none =>
    rw [refused] at received
    generalize extended : ({ w.remoteAt remote with
        calls := .listFolder folder :: (w.remoteAt remote).calls
        listings := (w.remoteAt remote).listings + 1 } : Remote) = r
    have there : (w.setRemote remote r).remoteAt remote = r := remoteAt_setRemote remoteKept
    have asked : w.request ⟨remote, folder, .asked⟩ = (.ok (), w.setRemote remote r) := by
      simp only [World.request, received, ← extended]
    have nobody : (w.setRemote remote r).background = [] := background
    have quiet : ∀ clock, (({ w.setRemote remote r with clock } : World).remoteAt remote).churn = [] :=
      fun clock => (congrArg Remote.churn there).trans (extended ▸ constant.churn)
    have listed : ∀ clock, ({ w.setRemote remote r with clock } : World).look
        ⟨remote, folder, .asked⟩ = (w.remoteAt remote).look folder := by
      intro clock
      rw [look]
      refine (congrArg (Remote.look · folder) there).trans ?_
      rw [← extended]
      rfl
    have waited : ∃ clock, w.awaitListing ⟨remote, folder, .asked⟩ =
        ((w.remoteAt remote).look folder, { w.setRemote remote r with clock }) := by
      simp only [World.awaitListing, asked]
      rw [awaitUnderWay, waitUntil_of_background nobody, listed, awaitAnswered,
        waitUntil_of_background (by exact nobody), arrive_of_churn (quiet _)]
      exact ⟨_, rfl⟩
    obtain ⟨clock, waited⟩ := waited
    refine ⟨clock, (w.remoteAt remote).listings + 1, ?_⟩
    rw [waited, Remote.answerTo, refused, extended]

/-- A service that lists what a store lists and answers always alike. -/
structure Presents (r : Remote) (s : Store) : Prop where
  constant : r.Constant
  lists : ∀ folder, r.store.list folder = s.list folder
  sound : s.Sound

/-- A world where nothing runs in the background and no listing is on its way. A cache mirrors a
store, and the service is as told but for its record of calls. -/
structure Still (cache remote : Nat) (r : Remote) (s : Store) (w : World) : Prop where
  remoteKept : remote < w.remotes.length
  background : w.background = []
  service : ∃ calls listings, w.remoteAt remote = { r with calls, listings }
  cacheKept : cache < w.caches.length
  idle : ∀ folder, (w.cacheAt cache).flight? folder = none
  mirrors : (w.cacheAt cache).Mirrors s

section Still

variable {r : Remote} {folder : String}

/-- The children of a folder that is known are what the store lists. -/
theorem Still.ensureChildren_of_known (still : w.Still cache remote r s) (presents : Presents r s)
    (normal : IsNormal folder) {names : Std.TreeSet String}
    (known : (w.cacheAt cache).childNames? folder = some names) :
    (Task.attempt (Task.ensureChildren cache remote folder)).Finds w (s.list folder) w := by
  obtain ⟨entries, told, done⟩ := still.mirrors.children?_eq presents.sound normal known
  have claim : w.claim? cache folder = some (some entries, w) := by
    rw [World.claim?, told]
  refine Task.finds_attempt ?_
  rintro scene rfl
  simp only [Task.ensureChildren, normalize_of_isNormal normal, Task.toScript, ExceptT.run,
    listingAttempts, Task.ensureChildrenIn, Task.listOnce, Script.run?,
    Script.awaitClaim_of_claim? claim, done]

/-- The service answers as it always does, and the world is still afterwards with any cache that mirrors
the store. -/
theorem Still.awaitListing (still : w.Still cache remote r s) (presents : Presents r s)
    (c : Cache) (folder : String) :
    ∃ w', (w.setCache cache c).awaitListing ⟨remote, folder, .asked⟩ = (r.answerTo folder, w') ∧
      w'.cacheAt cache = c ∧
      (w'.remoteAt remote).calls = .listFolder folder :: (w.remoteAt remote).calls ∧
      ∀ after : Cache, (w'.setCache cache after).cacheAt cache = after ∧
        ((∀ other, after.flight? other = none) → after.Mirrors s →
          (w'.setCache cache after).Still cache remote r s) := by
  obtain ⟨calls, listings, service⟩ := still.service
  have there : (w.setCache cache c).remoteAt remote = { r with calls, listings } := service
  have constant : ((w.setCache cache c).remoteAt remote).Constant :=
    there ▸ ⟨presents.constant.lasting, presents.constant.churn⟩
  obtain ⟨clock, listings', waited⟩ := awaitListing_of_constant
    (w := w.setCache cache c) still.remoteKept still.background constant folder
  generalize left : ({ (w.setCache cache c).setRemote remote _ with clock } : World) = w' at waited
  rw [there] at waited
  have inside : cache < w'.caches.length := by
    rw [← left]
    change cache < (w.caches.set cache c).length
    rw [List.length_set]
    exact still.cacheKept
  have record : w'.remoteAt remote =
      { r with calls := .listFolder folder :: calls, listings := listings' } := by
    rw [← left, there]
    exact remoteAt_setRemote still.remoteKept
  refine ⟨w', waited, ?_, ?_, fun after => ⟨cacheAt_setCache inside, fun idle mirrors => ?_⟩⟩
  · rw [← left]
    exact cacheAt_setCache still.cacheKept
  · rw [record, service]
  · refine ⟨?_, ?_, ⟨_, _, record⟩, ?_, ?_, ?_⟩
    · rw [← left]
      change remote < (w.remotes.set remote _).length
      rw [List.length_set]
      exact still.remoteKept
    · rw [← left]
      exact still.background
    · rw [World.setCache, List.length_set]
      exact inside
    · rwa [cacheAt_setCache inside]
    · rwa [cacheAt_setCache inside]

/-- The children of a folder that is not known are what listing it comes to. The service is called
once, and the folder is known afterwards unless that failed. -/
theorem Still.ensureChildren_of_unknown (still : w.Still cache remote r s)
    (presents : Presents r s) (normal : IsNormal folder)
    (unknown : (w.cacheAt cache).childNames? folder = none) :
    ∃ w', (Task.attempt (Task.ensureChildren cache remote folder)).Finds w (r.listing folder) w' ∧
      w'.Still cache remote r s ∧
      (w'.remoteAt remote).calls = .listFolder folder :: (w.remoteAt remote).calls ∧
      ∀ other, ((w'.cacheAt cache).childNames? other).isSome ↔
        ((w.cacheAt cache).childNames? other).isSome ∨
          other = folder ∧ (r.listing folder).isOk := by
  have untold : (w.cacheAt cache).children? folder = none := by
    rw [Cache.children?, normalize_of_isNormal normal, unknown]
    rfl
  obtain ⟨c, begins, refused, arrived⟩ :=
    still.mirrors.fetch presents.sound normal still.idle unknown
  have claim : w.claim? cache folder = some (none, w.setCache cache c) := by
    rw [World.claim?, untold]
    simp only [begins]
  obtain ⟨w', waited, here, calls, still'⟩ := still.awaitListing presents c folder
  rcases r.answerTo_cases folder with
    ⟨failure, comes, answer⟩ | ⟨listed, entries, comes, stored, answer, shuffled⟩
  · obtain ⟨after, finished, idle, mirrors, same⟩ := refused
    rw [answer] at waited
    rw [comes]
    refine ⟨w'.setCache cache after, ?_, (still' after).2 idle mirrors, calls, fun other => ?_⟩
    · exact Task.finds_ensureChildren_of_claim [] normal claim waited (here.symm ▸ finished)
        fun refuted => absurd refuted Bool.false_ne_true
    · rw [(still' after).1, same]
      exact (or_iff_left fun refuted => Bool.false_ne_true refuted.2).symm
  · rw [presents.lists] at stored
    obtain ⟨after, finished, idle, mirrors, told, names⟩ := arrived stored shuffled
    rw [answer] at waited
    rw [comes]
    refine ⟨w'.setCache cache after, ?_, (still' after).2 idle mirrors, calls, fun other => ?_⟩
    · exact Task.finds_ensureChildren_of_claim listed normal claim waited (here.symm ▸ finished)
        fun _ => told
    · rw [(still' after).1, names]
      exact or_congr_right (and_iff_left rfl).symm

end Still

/-- A world with a faithful store that a cache mirrors, where no listing is on its way. -/
structure Calm (cache remote : Nat) (s : Store) (w : World) : Prop extends w.Faithful remote where
  cacheKept : cache < w.caches.length
  store : (w.remoteAt remote).store = s
  sound : s.Sound
  idle : ∀ folder, (w.cacheAt cache).flight? folder = none
  mirrors : (w.cacheAt cache).Mirrors s

/-- The children of a folder are what the store lists, and known afterwards. -/
theorem Calm.ensureChildren (calm : w.Calm cache remote s) (folder : String) :
    ∃ w', (Task.attempt (Task.ensureChildren cache remote folder)).Finds w (s.list folder) w' ∧
      w'.Calm cache remote s ∧ ((s.list folder).isOk →
        ((w'.cacheAt cache).childNames? (normalize folder)).isSome) := by
  have normal := isNormal_normalize folder
  have spelled : Task.ensureChildren cache remote folder =
      Task.ensureChildren cache remote (normalize folder) := by
    rw [Task.ensureChildren, Task.ensureChildren, normalize_normalize]
  rw [← Store.list_normalize, spelled]
  generalize normalize folder = folder at normal ⊢
  have presents : Presents (w.remoteAt remote) s := by
    refine ⟨⟨?_, calm.churn⟩, fun folder => by rw [calm.store], calm.sound⟩
    rw [calm.faults]
    exact fun f member => absurd member List.not_mem_nil
  have still : w.Still cache remote (w.remoteAt remote) s :=
    ⟨calm.remoteKept, calm.background, ⟨_, _, rfl⟩, calm.cacheKept, calm.idle, calm.mirrors⟩
  cases known : (w.cacheAt cache).childNames? folder with
  | some names =>
    have finds := still.ensureChildren_of_known presents normal known
    exact ⟨w, finds, calm, fun _ => known ▸ rfl⟩
  | none =>
    have listed : (w.remoteAt remote).listing folder = s.list folder := by
      rw [Remote.listing, Remote.refusal?, calm.faults, ← calm.store]
      rfl
    obtain ⟨w', finds, still', -, names⟩ := still.ensureChildren_of_unknown presents normal known
    obtain ⟨calls, listings, service⟩ := still'.service
    rw [listed] at finds names
    refine ⟨w', finds, ⟨⟨still'.remoteKept, still'.background, ?_, ?_⟩, still'.cacheKept, ?_,
      calm.sound, still'.idle, still'.mirrors⟩, fun lists => (names folder).mpr (Or.inr ⟨rfl, lists⟩)⟩
    · rw [service, calm.faults]
    · rw [service, calm.churn]
    · rw [service, calm.store]

/-! ### Coherent caches -/

/-- A consistent cache that tells nothing but what the store would tell mirrors the store. -/
theorem Coherent.mirrors (coherent : w.Coherent) (inStep : (w.cacheAt w.cache).InStep)
    (sound : (w.remoteAt w.remote).store.Sound) :
    (w.cacheAt w.cache).Mirrors (w.remoteAt w.remote).store := by
  have listing : ∀ {folder names}, (w.cacheAt w.cache).childNames? folder = some names →
      ∃ entries, entries.map Entry.name = names.toList ∧
        Store.IsListing (w.remoteAt w.remote).store folder entries := by
    intro folder names listed
    have normal := inStep.tidy.of_childNames? listed
    have loaded : (w.cacheAt w.cache).isLoaded folder := by
      rw [Cache.isLoaded_of_isNormal _ normal, listed]
      rfl
    obtain ⟨entries, told, lists⟩ := coherent.loaded loaded
    rw [← normalize_of_isNormal normal] at listed
    obtain ⟨others, told', same, -⟩ := inStep.children?_eq listed
    rw [told, Option.some.injEq] at told'
    exact ⟨entries, told' ▸ same, Store.isListing_of_list sound normal lists⟩
  refine ⟨inStep.tidy, ?_, ?_, ?_, ?_⟩
  · intro path e known
    have normal := inStep.tidy.of_entryAt? known
    rw [← Cache.get?_of_isNormal _ normal] at known
    have told := coherent.known known
    rw [Store.stat, normalize_of_isNormal normal] at told
    cases here : (w.remoteAt w.remote).store.get? path with
    | none =>
      simp only [here] at told
      cases told
    | some o =>
      simp only [here, Except.ok.injEq] at told
      exact ⟨o, rfl, told⟩
  · intro folder names listed
    obtain ⟨entries, -, isListing⟩ := listing listed
    exact isListing.isFolder
  · intro folder names listed name
    have normal := inStep.tidy.of_childNames? listed
    obtain ⟨entries, same, isListing⟩ := listing listed
    rw [← Std.TreeSet.mem_toList, ← same, isListing.mem_names sound normal]
  · intro folder names listed name member
    exact Option.isSome_iff_exists.mp ((inStep.names listed).mp member).2

end World

end StoreShell
