import StoreShell.Children
import StoreShell.Proofs.Mirrors
import StoreShell.Proofs.Settling

/-! # Worlds of a client that is alone

A world is steady if nothing runs in the background, no listing is on its way, and the current
remote store answers at once what a sound store holds. Every request to a steady world leaves it
steady. What a request does to the store is then still owed to the cache: `Owes` says that the cache
mirrors the store once a change has been made to it. Between commands nothing is owed.
-/

namespace StoreShell

open StoreShell.Path

namespace Remote

/-- A remote store that answers at once, and as its store does. -/
structure Plain (r : Remote) : Prop where
  faults : r.faults = []
  churn : r.churn = []
  listDelay : r.listDelay = 0
  lateDelay : r.lateDelay = 0
  reversed : r.reversed = false

variable {r : Remote} {α : Type}

/-- Without faults a call is recorded and nothing else. -/
theorem receive_of_faultless (faultless : r.faults = []) (call : Call) :
    r.receive call = (.ok (), { r with calls := call :: r.calls }) := by
  obtain ⟨store, calls, listings, faults, churn, listDelay, lateDelay, reversed⟩ := r
  obtain rfl : faults = [] := faultless
  rfl

/-- Without faults a question is answered from the store. -/
theorem query_of_faultless (faultless : r.faults = []) (call : Call)
    (look : Store → Except Failure α) :
    r.query call look = (look r.store, { r with calls := call :: r.calls }) := by
  rw [query, receive_of_faultless faultless]

/-- Without faults a change is made if the store does not refuse it. -/
theorem change_of_faultless (faultless : r.faults = []) (call : Call) {act : Store.Edit α}
    (harmless : act.Harmless r.store) :
    r.change call act =
      match act.result r.store with
      | .error failure => (.error failure, { r with calls := call :: r.calls })
      | .ok (answer, store) => (.ok answer, { r with calls := call :: r.calls, store }) := by
  rw [change, receive_of_faultless faultless]
  dsimp only
  rw [harmless.apply_eq]
  cases act.result r.store <;> rfl

theorem Plain.withCalls (plain : r.Plain) (calls : List Call) (store : Store) (listings : Nat) :
    Plain { r with calls, store, listings } :=
  ⟨plain.faults, plain.churn, plain.listDelay, plain.lateDelay, plain.reversed⟩

end Remote

namespace World

variable {w : World} {n : Nat} {c : Cache} {r : Remote}

theorem cacheAt_setCache (inside : n < w.caches.length) : (w.setCache n c).cacheAt n = c := by
  simp [setCache, cacheAt, inside]

theorem cacheAt_of_le (outside : w.caches.length ≤ n) : w.cacheAt n = .empty := by
  rw [cacheAt, List.getElem?_eq_none outside, Option.getD_none]

theorem cacheAt_setCache_of_le (outside : w.caches.length ≤ n) :
    (w.setCache n c).cacheAt n = .empty :=
  cacheAt_of_le (by rwa [setCache, List.length_set])

/-- A cache that is put in the place of one with the same nodes, if there is such a place. -/
theorem nodes_cacheAt_setCache (same : c.nodes = (w.cacheAt n).nodes) :
    ((w.setCache n c).cacheAt n).nodes = (w.cacheAt n).nodes := by
  by_cases inside : n < w.caches.length
  · rw [cacheAt_setCache inside, same]
  · have outside := Nat.le_of_not_lt inside
    rw [cacheAt_setCache_of_le outside, cacheAt_of_le outside]

theorem remoteAt_setRemote (inside : n < w.remotes.length) :
    (w.setRemote n r).remoteAt n = r := by
  simp [setRemote, remoteAt, inside]

theorem setCache_self (w : World) (n : Nat) : w.setCache n (w.cacheAt n) = w := by
  rw [setCache, cacheAt]
  cases found : w.caches[n]? with
  | none =>
    rw [List.set_eq_of_length_le (List.getElem?_eq_none_iff.mp found)]
  | some c =>
    obtain ⟨inside, rfl⟩ := List.getElem?_eq_some_iff.mp found
    rw [Option.getD_some, List.set_getElem_self]

/-- A world with a numbered cache and a numbered remote store that nothing else uses. -/
structure Steady (cache remote : Nat) (w : World) : Prop where
  cacheIs : w.cache = cache
  remoteIs : w.remote = remote
  cacheKept : cache < w.caches.length
  remoteKept : remote < w.remotes.length
  background : w.background = []
  live : w.cancelled = false
  quiet : w.settings.prefetchOnCd = false
  plain : (w.remoteAt remote).Plain
  sound : (w.remoteAt remote).store.Sound
  root : (w.remoteAt remote).store.HasRoot

variable {cache remote : Nat}

theorem Steady.setCache (steady : w.Steady cache remote) (c : Cache) :
    (w.setCache cache c).Steady cache remote where
  cacheIs := steady.cacheIs
  remoteIs := steady.remoteIs
  cacheKept := by
    rw [World.setCache, List.length_set]
    exact steady.cacheKept
  remoteKept := steady.remoteKept
  background := steady.background
  live := steady.live
  quiet := steady.quiet
  plain := steady.plain
  sound := steady.sound
  root := steady.root

/-- A store that is changed properly leaves the world steady. -/
theorem Steady.setRemote (steady : w.Steady cache remote) (plain : r.Plain) (sound : r.store.Sound)
    (root : r.store.HasRoot) : (w.setRemote remote r).Steady cache remote where
  cacheIs := steady.cacheIs
  remoteIs := steady.remoteIs
  cacheKept := steady.cacheKept
  remoteKept := by
    rw [World.setRemote, List.length_set]
    exact steady.remoteKept
  background := steady.background
  live := steady.live
  quiet := steady.quiet
  plain := by rwa [remoteAt_setRemote steady.remoteKept]
  sound := by rwa [remoteAt_setRemote steady.remoteKept]
  root := by rwa [remoteAt_setRemote steady.remoteKept]

/-- A steady world whose cache waits for nothing and mirrors the store once `f` has been done to
it. -/
structure Owes (cache remote : Nat) (f : Cache → Cache) (w : World) : Prop
    extends w.Steady cache remote where
  idle : ∀ folder, (w.cacheAt cache).flight? folder = none
  mirrors : (f (w.cacheAt cache)).Mirrors (w.remoteAt remote).store

/-- Doing what is owed pays it off. -/
theorem Owes.pay {f g : Cache → Cache} (owes : w.Owes cache remote fun c => f (g c))
    (idle : ∀ folder, (g (w.cacheAt cache)).flight? folder = none) :
    (w.setCache cache (g (w.cacheAt cache))).Owes cache remote f where
  toSteady := owes.toSteady.setCache _
  idle := by
    rw [cacheAt_setCache owes.cacheKept]
    exact idle
  mirrors := by
    rw [cacheAt_setCache owes.cacheKept]
    exact owes.mirrors

/-- A cache that mirrors the store takes the place of another one. -/
theorem Steady.owes_setCache (steady : w.Steady cache remote)
    (idle : ∀ folder, c.flight? folder = none) (mirrors : c.Mirrors (w.remoteAt remote).store) :
    (w.setCache cache c).Owes cache remote fun c => c where
  toSteady := steady.setCache c
  idle := by
    rw [cacheAt_setCache steady.cacheKept]
    exact idle
  mirrors := by
    rw [cacheAt_setCache steady.cacheKept]
    exact mirrors

/-- A change of the store is owed to the cache. -/
theorem Steady.owe {f : Cache → Cache} (steady : w.Steady cache remote)
    (idle : ∀ folder, (w.cacheAt cache).flight? folder = none) (plain : r.Plain)
    (sound : r.store.Sound) (root : r.store.HasRoot)
    (mirrors : (f (w.cacheAt cache)).Mirrors r.store) :
    (w.setRemote remote r).Owes cache remote f where
  toSteady := steady.setRemote plain sound root
  idle := idle
  mirrors := by
    rw [remoteAt_setRemote steady.remoteKept]
    exact mirrors

/-- A change of the store that succeeds is owed to the cache, one that fails changes nothing but
records. -/
theorem Owes.change {α : Type} (owes : w.Owes cache remote fun c => c) (call : Call)
    {act : Store.Edit α} (harmless : ∀ store, act.Harmless store) (owed : α → Cache → Cache)
    (keeps : ∀ {store store' : Store} {a}, store.Sound → store.HasRoot →
      act.result store = .ok (a, store') → store'.Sound ∧ store'.HasRoot ∧
        ∀ c : Cache, c.Mirrors store → (owed a c).Mirrors store') :
    ∃ r, (w.remoteAt remote).change call act =
        ((act.result (w.remoteAt remote).store).map Prod.fst, r) ∧
      match act.result (w.remoteAt remote).store with
      | .error _ => r.store = (w.remoteAt remote).store ∧
          (w.setRemote remote r).Owes cache remote fun c => c
      | .ok (a, store) => r.store = store ∧ (w.setRemote remote r).Owes cache remote (owed a) := by
  have change := Remote.change_of_faultless owes.plain.faults call (harmless (w.remoteAt remote).store)
  cases done : act.result (w.remoteAt remote).store with
  | error failure =>
    simp only [done] at change
    refine ⟨_, change, rfl, owes.toSteady.owe owes.idle ?_ owes.sound owes.root owes.mirrors⟩
    exact owes.plain.withCalls _ (w.remoteAt remote).store _
  | ok result =>
    obtain ⟨a, store⟩ := result
    simp only [done] at change
    obtain ⟨sound, root, mirrors⟩ := keeps owes.sound owes.root done
    refine ⟨_, change, rfl, owes.toSteady.owe owes.idle ?_ sound root (mirrors _ owes.mirrors)⟩
    exact owes.plain.withCalls _ store _

/-! ### Looking -/

/-- A world that came from another one by looking only: the store is the same, and nothing is owed
to the cache. -/
structure LookedFrom (cache remote : Nat) (w w' : World) : Prop
    extends w'.Owes cache remote fun c => c where
  cwd : w'.cwd = w.cwd
  settings : w'.settings = w.settings
  store : (w'.remoteAt remote).store = (w.remoteAt remote).store

theorem Owes.lookedFrom (owes : w.Owes cache remote fun c => c) : LookedFrom cache remote w w :=
  ⟨owes, rfl, rfl, rfl⟩

theorem LookedFrom.trans {w' w'' : World} (first : LookedFrom cache remote w w')
    (second : LookedFrom cache remote w' w'') : LookedFrom cache remote w w'' :=
  ⟨second.toOwes, second.cwd.trans first.cwd, second.settings.trans first.settings,
    second.store.trans first.store⟩

/-- A question is answered from the store, and nothing becomes owed. -/
theorem Owes.query {α : Type} (owes : w.Owes cache remote fun c => c) (call : Call)
    (look : Store → Except Failure α) :
    ∃ r, (w.remoteAt remote).query call look = (look (w.remoteAt remote).store, r) ∧
      LookedFrom cache remote w (w.setRemote remote r) := by
  refine ⟨_, Remote.query_of_faultless owes.plain.faults call look, ?_, rfl, rfl, ?_⟩
  · refine owes.toSteady.owe owes.idle ?_ owes.sound owes.root owes.mirrors
    exact owes.plain.withCalls _ (w.remoteAt remote).store _
  · rw [remoteAt_setRemote owes.remoteKept]

/-- The cache takes note of an object that the store has. -/
theorem Owes.note (owes : w.Owes cache remote fun c => c) {path : String} (normal : IsNormal path)
    {e : Entry} (found : (w.remoteAt remote).store.stat path = .ok e) :
    LookedFrom cache remote w (w.setCache cache ((w.cacheAt cache).add e path)) := by
  have stored : ∃ o, (w.remoteAt remote).store.get? path = some o ∧ o.entry = e := by
    rw [Store.stat, normalize_of_isNormal normal] at found
    cases here : (w.remoteAt remote).store.get? path with
    | none =>
      simp only [here] at found
      cases found
    | some o =>
      simp only [here, Except.ok.injEq] at found
      exact ⟨o, rfl, found⟩
  obtain ⟨o, here, rfl⟩ := stored
  refine ⟨owes.toSteady.owes_setCache (fun folder => ?_) (owes.mirrors.note normal here), rfl, rfl,
    rfl⟩
  rw [← Option.not_isSome_iff_eq_none, Cache.isSome_flight?_add, owes.idle]
  exact Bool.false_ne_true

/-- What the cache knows is what the store would tell. -/
theorem Owes.stat_of_known (owes : w.Owes cache remote fun c => c) {path : String}
    (normal : IsNormal path) {e : Entry} (known : (w.cacheAt cache).get? path = some e) :
    (w.remoteAt remote).store.stat path = .ok e := by
  rw [Cache.get?_of_isNormal _ normal] at known
  obtain ⟨o, here, rfl⟩ := owes.mirrors.entry known
  simp only [Store.stat, normalize_of_isNormal normal, here]

/-! ### Listing -/

theorem setRemote_self (w : World) (n : Nat) : w.setRemote n (w.remoteAt n) = w := by
  rw [setRemote, remoteAt]
  cases found : w.remotes[n]? with
  | none =>
    rw [List.set_eq_of_length_le (List.getElem?_eq_none_iff.mp found)]
  | some r =>
    obtain ⟨inside, rfl⟩ := List.getElem?_eq_some_iff.mp found
    rw [Option.getD_some, List.set_getElem_self]

/-- Nothing happens to a world when an answer arrives if nothing is laid down for that. -/
theorem arrive_of_churn {l : Listing} (nothing : (w.remoteAt l.remote).churn = []) :
    w.arrive l = w := by
  have same : { w.remoteAt l.remote with churn := [] } = w.remoteAt l.remote := by
    rw [← nothing]
  simp only [World.arrive, nothing, applyChurns]
  rw [setCache_self, same, setRemote_self]

/-- A listing is answered at once, with what the store lists, and changes nothing but records. -/
theorem Steady.advance (steady : w.Steady cache remote) (folder : String) :
    ∃ r, r.Plain ∧ r.store = (w.remoteAt remote).store ∧
      w.advance ⟨remote, folder, .asked⟩ =
        (.inr ((w.remoteAt remote).store.list folder), w.setRemote remote r) := by
  let r : Remote :=
    { w.remoteAt remote with
      calls := .listFolder folder :: (w.remoteAt remote).calls
      listings := (w.remoteAt remote).listings + 1 }
  have plain : r.Plain := steady.plain.withCalls _ _ _
  have steady' : (w.setRemote remote r).Steady cache remote :=
    steady.setRemote plain steady.sound steady.root
  refine ⟨r, plain, rfl, ?_⟩
  have asked : w.request ⟨remote, folder, .asked⟩ = (.ok (), w.setRemote remote r) := by
    rw [World.request, Remote.receive_of_faultless steady.plain.faults]
  have found : (w.setRemote remote r).look ⟨remote, folder, .asked⟩ =
      (w.remoteAt remote).store.list folder := by
    rw [World.look, remoteAt_setRemote steady.remoteKept, Remote.look, plain.reversed]
    cases r.store.list folder <;> rfl
  have now : (w.setRemote remote r).lookDue ⟨remote, folder, .asked⟩ ≤
      (w.setRemote remote r).clock := by
    rw [lookDue, remoteAt_setRemote steady.remoteKept, plain.listDelay]
    exact Nat.le_refl _
  have now' : (w.setRemote remote r).answerDue ⟨remote, folder, .asked⟩ ≤
      (w.setRemote remote r).clock := by
    rw [answerDue, remoteAt_setRemote steady.remoteKept, plain.lateDelay]
    exact Nat.le_refl _
  simp only [World.advance, asked]
  rw [advanceUnderWay, if_pos now, advanceAnswered, if_pos now', found,
    arrive_of_churn steady'.plain.churn]

/-- The children of a folder are what the store lists, and known afterwards. -/
theorem Owes.ensureChildren (owes : w.Owes cache remote fun c => c) (folder : String) :
    ∃ w', (Task.ensureChildren cache remote folder).settle? w =
        some ((w.remoteAt remote).store.list folder, w') ∧
      LookedFrom cache remote w w' ∧ ∀ entries, (w.remoteAt remote).store.list folder = .ok entries →
        ((w'.cacheAt cache).childNames? (normalize folder)).isSome := by
  have normal := isNormal_normalize folder
  rw [← Store.list_normalize, Task.ensureChildren]
  generalize normalize folder = folder at normal ⊢
  cases listed : (w.cacheAt cache).childNames? folder with
  | some names =>
    obtain ⟨entries, told, done⟩ := owes.mirrors.children?_eq owes.sound normal listed
    have known : w.claim? cache folder = some (some entries, w) := by
      rw [World.claim?, told]
    refine ⟨w, ?_, owes.lookedFrom, fun _ _ => listed ▸ rfl⟩
    simp only [listingAttempts, Task.ensureChildrenIn, Task.listOnce, Script.settle?, known, done]
  | none =>
    have unknown : (w.cacheAt cache).children? folder = none := by
      rw [Cache.children?, normalize_of_isNormal normal, listed]
      rfl
    obtain ⟨c, begins, refused, arrived⟩ := owes.mirrors.fetch owes.sound normal owes.idle listed
    have claim : w.claim? cache folder = some (none, w.setCache cache c) := by
      rw [World.claim?, unknown]
      simp only [begins]
    obtain ⟨r, plain, same, advanced⟩ := (owes.toSteady.setCache c).advance folder
    have steady := (owes.toSteady.setCache c).setRemote plain (same ▸ owes.sound) (same ▸ owes.root)
    have here : (((w.setCache cache c).setRemote remote r).cacheAt cache) = c :=
      cacheAt_setCache owes.cacheKept
    have there : (((w.setCache cache c).setRemote remote r).remoteAt remote) = r :=
      remoteAt_setRemote owes.remoteKept
    have store : (((w.setCache cache c).setRemote remote r).remoteAt remote).store =
        (w.remoteAt remote).store := (congrArg Remote.store there).trans same
    have ready : (w.setCache cache c).isWaiting ⟨remote, folder, .asked⟩ = false := rfl
    have elsewhere : (w.setCache cache c).remoteAt remote = w.remoteAt remote := rfl
    rw [elsewhere] at advanced
    cases done : (w.remoteAt remote).store.list folder with
    | error failure =>
      obtain ⟨after, finished, idle, mirrors, -⟩ := refused
      rw [done] at advanced
      refine ⟨((w.setCache cache c).setRemote remote r).setCache cache after, ?_,
        ⟨steady.owes_setCache idle (store.symm ▸ mirrors), rfl, rfl, store⟩, fun _ listed => ?_⟩
      · simp only [listingAttempts, Task.ensureChildrenIn, Task.listOnce, Script.settle?, claim,
          ready, Bool.false_eq_true, if_false, advanced, World.answer, World.onCache, here, finished]
      · cases listed
    | ok entries =>
      obtain ⟨after, finished, idle, mirrors, told, names⟩ := arrived done (.refl _)
      rw [done] at advanced
      refine ⟨((w.setCache cache c).setRemote remote r).setCache cache after, ?_,
        ⟨steady.owes_setCache idle (store.symm ▸ mirrors), rfl, rfl, store⟩, fun _ _ => ?_⟩
      · simp only [listingAttempts, Task.ensureChildrenIn, Task.listOnce, Script.settle?, claim,
          ready, Bool.false_eq_true, if_false, advanced, World.answer, World.onCache, here, finished,
          told]
      · rw [cacheAt_setCache steady.cacheKept]
        exact (names folder).mpr (Or.inr rfl)

end World

end StoreShell
