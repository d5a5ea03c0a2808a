import StoreShell.Proofs.ClaimOwners
import StoreShell.Proofs.ListingsOut
import StoreShell.Proofs.OfferedChildren
import StoreShell.Proofs.Sessions

/-! # Listings that are shared

A folder is listed once for all loaders that want its children. While the store keeps its tree, the
listing of the folder does not fail and nobody else touches what is known of the folder or of those
above it, the first listing fills the cache for good, and whoever wants the children later finds them
there (`Pool.listings_shared`).
-/

namespace StoreShell

open StoreShell.Path

/-! ### Calls that list a folder -/

/-- Whether what a listing was answered, if it was, is what a store lists. -/
def Claim.Tells (s : Store) : Claim → Prop
  | .lists folder (.answered answer _) => s.Tells folder answer
  | .gives folder answer => s.Tells folder answer
  | _ => True

/-- Whether a claim is one on a folder whose listing the service was called for. -/
def Claim.hasCalled (folder : String) : Claim → Bool
  | .free => false
  | .lists other stage => other = folder && stage.isCalled
  | .gives other _ => other = folder

/-- Only a claim can have the service called. -/
theorem Claim.isOn_of_hasCalled {c : Claim} {folder : String} (called : c.hasCalled folder) :
    c.isOn folder := by
  cases c with
  | free => cases called
  | lists => exact (Bool.and_eq_true_iff.mp called).1
  | gives => exact called

namespace World

/-- The number of calls to a remote store that listed a folder. -/
def listCalls (w : World) (remote : Nat) (folder : String) : Nat :=
  (w.remoteAt remote).calls.count (.listFolder folder)

/-- Whether a remote store has a certain tree, and nothing is laid down for its answers. -/
structure Serves (remote : Nat) (s : Store) (w : World) : Prop where
  remoteKept : remote < w.remotes.length
  store : (w.remoteAt remote).store = s
  churn : (w.remoteAt remote).churn = []

variable {cache remote : Nat} {w w' : World} {s : Store} {folder d : String} {stage : ListingStage}

/-- A remote store that has changed in other ways only serves as before. -/
theorem Serves.setRemote (serves : w.Serves remote s) {r : Remote} (store : r.store = s)
    (churn : r.churn = []) : (w.setRemote remote r).Serves remote s := by
  have there := remoteAt_setRemote (r := r) serves.remoteKept
  refine ⟨?_, there.symm ▸ store, there.symm ▸ churn⟩
  rw [World.setRemote, List.length_set]
  exact serves.remoteKept

/-- How far a listing has come when it has gone on: the service has been called for it, and what it
was answered is what the store lists. -/
def Reports (s : Store) (folder : String) : ListingProgress → Prop
  | .inl l => l.stage.isCalled ∧ (Claim.lists folder l.stage).Tells s
  | .inr answer => s.Tells folder answer

/-- A service without faults finds in a folder what its store lists there. -/
theorem Serves.look (serves : w.Serves remote s) :
    s.Tells folder (w.look ⟨remote, folder, stage⟩) := by
  intro entries found
  rcases (w.remoteAt remote).look_cases folder with
    ⟨failure, -, looks⟩ | ⟨listed, others, lists, looks, perm⟩
  · cases looks.symm.trans found
  · cases looks.symm.trans found
    exact ⟨listed, serves.store ▸ lists, perm⟩

private theorem Serves.advanceAnswered (serves : w.Serves remote s)
    {answer : Except Failure (List Entry)} (tells : s.Tells folder answer) {due : Nat}
    {progress : ListingProgress}
    (advanced : w.advanceAnswered ⟨remote, folder, stage⟩ answer due = (progress, w')) :
    w' = w ∧ Reports s folder progress := by
  rw [World.advanceAnswered] at advanced
  split at advanced
  · cases advanced
    exact ⟨arrive_of_churn serves.churn, tells⟩
  · cases advanced
    exact ⟨rfl, rfl, tells⟩

private theorem Serves.advanceUnderWay (serves : w.Serves remote s) {due : Nat}
    {progress : ListingProgress}
    (advanced : w.advanceUnderWay ⟨remote, folder, stage⟩ due = (progress, w')) :
    w' = w ∧ Reports s folder progress := by
  rw [World.advanceUnderWay] at advanced
  split at advanced
  · exact serves.advanceAnswered serves.look advanced
  · cases advanced
    exact ⟨rfl, rfl, trivial⟩

/-- A listing that goes on calls the service if it has not yet, and does nothing else. -/
theorem Serves.advance (serves : w.Serves remote s) (tells : (Claim.lists folder stage).Tells s)
    {progress : ListingProgress}
    (advanced : w.advance ⟨remote, folder, stage⟩ = (progress, w')) :
    Reports s folder progress ∧ w'.caches = w.caches ∧ w'.Serves remote s ∧
      ∀ d, w'.listCalls remote d =
        w.listCalls remote d + (decide (folder = d) && !stage.isCalled).toNat := by
  have still : stage.isCalled → w' = w → w'.caches = w.caches ∧ w'.Serves remote s ∧
      ∀ d, w'.listCalls remote d =
        w.listCalls remote d + (decide (folder = d) && !stage.isCalled).toNat := by
    rintro called rfl
    exact ⟨rfl, serves, fun d => by rw [called, Bool.not_true, Bool.and_false]; rfl⟩
  cases stage with
  | underWay due =>
    obtain ⟨same, reports⟩ := serves.advanceUnderWay advanced
    exact ⟨reports, still rfl same⟩
  | answered answer due =>
    obtain ⟨same, reports⟩ := serves.advanceAnswered tells advanced
    exact ⟨reports, still rfl same⟩
  | asked =>
    -- whatever comes of the call, it is in the record
    have called : ∀ r : Remote, r.store = (w.remoteAt remote).store → r.churn = [] →
        r.calls = .listFolder folder :: (w.remoteAt remote).calls →
        (w.setRemote remote r).Serves remote s ∧ ∀ d, (w.setRemote remote r).listCalls remote d =
          w.listCalls remote d + (decide (folder = d) && !ListingStage.isCalled .asked).toNat := by
      intro r store churn calls
      refine ⟨serves.setRemote (store.trans serves.store) churn, fun d => ?_⟩
      rw [listCalls, remoteAt_setRemote serves.remoteKept, calls, List.count_cons, ← listCalls]
      by_cases same : folder = d
      · simp [same, ListingStage.isCalled]
      · simp [same]
    rw [World.advance] at advanced
    dsimp only at advanced
    rw [World.request, Remote.receive] at advanced
    cases taken : Fault.take (.listFolder folder) (w.remoteAt remote).faults with
    | mk failure faults =>
      rw [taken] at advanced
      cases failure with
      | some failure =>
        obtain ⟨rfl, rfl⟩ := Prod.mk.inj advanced
        obtain ⟨serves', calls⟩ := called
          { w.remoteAt remote with
            calls := .listFolder folder :: (w.remoteAt remote).calls
            faults } rfl serves.churn rfl
        exact ⟨(fun _ same => by cases same), rfl, serves', calls⟩
      | none =>
        dsimp only at advanced
        obtain ⟨serves', calls⟩ := called
          { w.remoteAt remote with
            calls := .listFolder folder :: (w.remoteAt remote).calls
            faults
            listings := (w.remoteAt remote).listings + 1 } rfl serves.churn rfl
        obtain ⟨rfl, reports⟩ := serves'.advanceUnderWay advanced
        exact ⟨reports, rfl, serves', calls⟩

end World

/-! ### What loaders share -/

/-- Whether a folder has been listed once at most since there were so many calls that listed it: there
is one more call for each claim whose listing the service was called for, and one more if the folder
was listed and its children are known. -/
def World.ListedOnce (cache remote : Nat) (folder : String) (s : Store) (before : Nat) (w : World)
    (claims : List Claim) : Prop :=
  ∃ listed ≤ 1, w.listCalls remote folder = before + listed + claims.countP (·.hasCalled folder) ∧
    (listed = 1 → ((w.cacheAt cache).childNames? folder).isSome ∧ (s.list folder).isOk)

/-- How a world and the claims held in it stand while loaders share the listing of a folder. -/
structure World.Shares (cache remote : Nat) (folder : String) (children : List Entry) (s : Store)
    (before : Nat) (w : World) (claims : List Claim) : Prop where
  balanced : w.Balanced cache claims
  serves : w.Serves remote s
  told : ∀ c ∈ claims, c.Tells s
  succeeded : ∀ answer, .gives folder answer ∈ claims → answer.isOk
  offers : (w.cacheAt cache).Offers folder children s
  once : w.ListedOnce cache remote folder s before claims

namespace World.Shares

variable {cache remote : Nat} {d : String} {children : List Entry} {s : Store} {before : Nat}
  {w w' : World} {c c' : Claim} {claims : List Claim} {folder : String}

/-- While a listing is shared there is at most one more call than before. -/
theorem listCalls_le (shares : w.Shares cache remote d children s before claims) :
    w.listCalls remote d ≤ before + 1 := by
  obtain ⟨listed, most, calls, known⟩ := shares.once
  have called : claims.countP (·.hasCalled d) ≤ claims.countP (·.isOn d) :=
    List.countP_mono_left fun c _ => Claim.isOn_of_hasCalled
  rw [shares.balanced.balance d] at called
  have one := Bool.toNat_le (w.isMarked cache d)
  -- once the children are known nobody has a claim
  have none : listed = 1 → w.isMarked cache d = false := by
    intro done
    rw [isMarked, ← Bool.not_eq_true]
    intro claimed
    have unknown := shares.offers.unknown claimed
    rw [unknown] at known
    cases (known done).1
  rcases Nat.le_one_iff_eq_zero_or_eq_one.mp most with rfl | rfl
  · omega
  · rw [none rfl, Bool.toNat_false] at called
    omega

/-- Something happens to a world that leaves the caches alone and the store with its tree. -/
theorem of_caches (shares : w.Shares cache remote d children s before claims)
    (caches : w'.caches = w.caches) (serves : w'.Serves remote s)
    (calls : w'.listCalls remote d = w.listCalls remote d) :
    w'.Shares cache remote d children s before claims := by
  have same : w'.cacheAt cache = w.cacheAt cache := by rw [cacheAt, cacheAt, caches]
  obtain ⟨listed, most, count, known⟩ := shares.once
  exact ⟨shares.balanced.elsewhere caches, serves, shares.told, shares.succeeded,
    same ▸ shares.offers, listed, most, calls.trans count, same ▸ known⟩

theorem perm {others : List Claim} (shares : w.Shares cache remote d children s before claims)
    (perm : claims.Perm others) : w.Shares cache remote d children s before others where
  balanced := shares.balanced.perm perm
  serves := shares.serves
  told c member := shares.told c (perm.mem_iff.mpr member)
  succeeded answer member := shares.succeeded answer (perm.mem_iff.mpr member)
  offers := shares.offers
  once := by
    rw [ListedOnce, ← perm.countP_eq]
    exact shares.once

theorem free_iff : w.Shares cache remote d children s before (.free :: claims) ↔
    w.Shares cache remote d children s before claims := by
  have count : (Claim.free :: claims).countP (·.hasCalled d) = claims.countP (·.hasCalled d) :=
    List.countP_cons_of_neg (by simp [Claim.hasCalled])
  have once : w.ListedOnce cache remote d s before (.free :: claims) ↔
      w.ListedOnce cache remote d s before claims := by
    rw [ListedOnce, count, ListedOnce]
  constructor
  · rintro ⟨balanced, serves, told, succeeded, offers, calls⟩
    exact ⟨Balanced.free_iff.mp balanced, serves, (List.forall_mem_cons.mp told).2,
      fun answer member => succeeded answer (List.mem_cons_of_mem _ member), offers, once.mp calls⟩
  · rintro ⟨balanced, serves, told, succeeded, offers, calls⟩
    refine ⟨Balanced.free_iff.mpr balanced, serves, List.forall_mem_cons.mpr ⟨trivial, told⟩,
      fun answer member => ?_, offers, once.mpr calls⟩
    rcases List.mem_cons.mp member with same | old
    · cases same
    · exact succeeded answer old

/-- Whoever holds a claim that was answered knows what the store lists there. -/
theorem told_head (shares : w.Shares cache remote d children s before (c :: claims)) :
    c.Tells s := shares.told c (List.mem_cons_self ..)

private theorem replace (shares : w.Shares cache remote d children s before (c :: claims))
    (balanced : w'.Balanced cache (c' :: claims)) (serves : w'.Serves remote s) (told : c'.Tells s)
    (succeeded : ∀ answer, c' = .gives d answer → answer.isOk)
    (offers : (w'.cacheAt cache).Offers d children s)
    (once : w'.ListedOnce cache remote d s before (c' :: claims)) :
    w'.Shares cache remote d children s before (c' :: claims) where
  balanced := balanced
  serves := serves
  told := List.forall_mem_cons.mpr ⟨told, (List.forall_mem_cons.mp shares.told).2⟩
  succeeded answer member := by
    rcases List.mem_cons.mp member with same | old
    · exact succeeded answer same.symm
    · exact shares.succeeded answer (List.mem_cons_of_mem _ old)
  offers := offers
  once := once

/-- A claim that begins has called nobody yet. -/
theorem begin (shares : w.Shares cache remote d children s before (.free :: claims))
    (normal : IsNormal folder) (begun : ((w.cacheAt cache).beginFetch folder).1 = true) :
    (w.setCache cache ((w.cacheAt cache).beginFetch folder).2).Shares cache remote d children s before
      (.lists folder .asked :: claims) := by
  have here := cacheAt_setCache (c := ((w.cacheAt cache).beginFetch folder).2)
    shares.balanced.cacheKept
  have taken : w.Handles cache remote .free _ _ := .begin normal begun
  refine shares.replace (shares.balanced.handles taken)
    ⟨shares.serves.remoteKept, shares.serves.store, shares.serves.churn⟩ trivial
    (fun _ same => by cases same) ?_ ?_
  · rw [here]
    exact shares.offers.beginFetch begun
  · obtain ⟨listed, most, count, known⟩ := shares.once
    rw [List.countP_cons_of_neg (by simp [Claim.hasCalled])] at count
    refine ⟨listed, most, ?_, ?_⟩
    · rw [List.countP_cons_of_neg (by simp [Claim.hasCalled, ListingStage.isCalled])]
      exact count
    · rw [here, Cache.childNames?, (Cache.beginFetch_of_claimed _ _ begun).1]
      exact known

private theorem advance {stage : ListingStage} {progress : ListingProgress}
    (shares : w.Shares cache remote d children s before (.lists folder stage :: claims))
    (advanced : w.advance ⟨remote, folder, stage⟩ = (progress, w'))
    (balanced : w'.Balanced cache (c' :: claims)) (told : c'.Tells s)
    (called : c'.hasCalled d = decide (folder = d))
    (succeeded : ∀ answer, c' = .gives d answer → answer.isOk) :
    w'.Shares cache remote d children s before (c' :: claims) := by
  obtain ⟨-, caches, serves, calls⟩ := shares.serves.advance shares.told_head advanced
  have same : w'.cacheAt cache = w.cacheAt cache := by rw [cacheAt, cacheAt, caches]
  refine shares.replace balanced serves told succeeded (same ▸ shares.offers) ?_
  obtain ⟨listed, most, count, known⟩ := shares.once
  refine ⟨listed, most, ?_, same ▸ known⟩
  rw [calls, count, List.countP_cons, List.countP_cons, called, Claim.hasCalled]
  by_cases own : folder = d
  · cases stage.isCalled
    · simp [own]
      omega
    · simp [own]
  · simp [own]

/-- The listing of the folder has arrived: its claim is given back, and its children are known. -/
theorem finish_self {answer : Except Failure (List Entry)} (sound : s.Sound) (normal : IsNormal d)
    (shares : w.Shares cache remote d children s before (.gives d answer :: claims)) :
    ∃ c, (w.cacheAt cache).finishFetch d answer.toOption = (true, c) ∧
      c.children? d = some children ∧
      (w.setCache cache c).Shares cache remote d children s before (.free :: claims) := by
  have marked := shares.balanced.isMarked (List.mem_cons_self ..) (decide_eq_true (rfl : d = d))
  obtain ⟨entries, rfl⟩ : ∃ entries, answer = .ok entries := by
    cases answer with
    | ok entries => exact ⟨entries, rfl⟩
    | error => cases shares.succeeded _ (List.mem_cons_self ..)
  obtain ⟨listed, lists, shuffled⟩ := shares.told_head entries rfl
  obtain ⟨c, finished, offers, known, told⟩ :=
    shares.offers.finishFetch_self sound normal marked lists shuffled
  have given : w.Handles cache remote (.gives d (.ok entries)) _ .free := .finish
  have balanced := shares.balanced.handles given
  rw [Except.toOption, finished] at balanced
  have here := cacheAt_setCache (c := c) shares.balanced.cacheKept
  refine ⟨c, finished, told, shares.replace balanced
    ⟨shares.serves.remoteKept, shares.serves.store, shares.serves.churn⟩ trivial
    (fun _ same => by cases same) (here.symm ▸ offers) ?_⟩
  obtain ⟨done, most, count, loaded⟩ := shares.once
  -- this was the one listing: the children were not known before
  obtain rfl : done = 0 := by
    rcases Nat.le_one_iff_eq_zero_or_eq_one.mp most with none | one
    · exact none
    · have unknown := shares.offers.unknown marked
      have known := (loaded one).1
      rw [unknown] at known
      cases known
  refine ⟨1, Nat.le_refl 1, ?_, fun _ => ⟨here.symm ▸ known, by rw [lists]; rfl⟩⟩
  rw [List.countP_cons_of_pos (by simp [Claim.hasCalled])] at count
  rw [List.countP_cons_of_neg (by simp [Claim.hasCalled])]
  change w.listCalls remote d = _
  omega

/-- A listing of another folder has arrived. -/
theorem finish_of_ne {answer : Except Failure (List Entry)} (sound : s.Sound) (normal : IsNormal d)
    (differ : d ≠ folder)
    (shares : w.Shares cache remote d children s before (.gives folder answer :: claims)) :
    (w.setCache cache ((w.cacheAt cache).finishFetch folder answer.toOption).2).Shares cache remote d
      children s before (.free :: claims) := by
  have normal' : IsNormal folder :=
    shares.balanced.normal _ (List.mem_cons_self ..) (decide_eq_true rfl)
  obtain ⟨offers, kept⟩ := shares.offers.finishFetch_of_ne sound normal normal' differ shares.told_head
  have here := cacheAt_setCache (c := ((w.cacheAt cache).finishFetch folder answer.toOption).2)
    shares.balanced.cacheKept
  have given : w.Handles cache remote (.gives folder answer) _ .free := .finish
  refine shares.replace (shares.balanced.handles given)
    ⟨shares.serves.remoteKept, shares.serves.store, shares.serves.churn⟩ trivial
    (fun _ same => by cases same) (here.symm ▸ offers) ?_
  obtain ⟨listed, most, count, known⟩ := shares.once
  refine ⟨listed, most, ?_, fun done => ⟨?_, (known done).2⟩⟩
  · rw [List.countP_cons_of_neg (by simpa [Claim.hasCalled] using differ.symm)] at count
    rw [List.countP_cons_of_neg (by simp [Claim.hasCalled])]
    exact count
  · rw [here]
    exact kept (known done).1 (known done).2

/-- How a listing goes on keeps it shared: by cases on what becomes of the claim. -/
theorem handles (sound : s.Sound) (normal : IsNormal d)
    (shares : w.Shares cache remote d children s before (c :: claims))
    (handles : w.Handles cache remote c w' c')
    (succeeded : ∀ answer, c' = .gives d answer → answer.isOk) :
    w'.Shares cache remote d children s before (c' :: claims) := by
  have balanced := shares.balanced.handles handles
  cases handles with
  | begin normal begun => exact shares.begin normal begun
  | goesOn advanced =>
    obtain ⟨⟨called, told⟩, -⟩ := shares.serves.advance shares.told_head advanced
    exact shares.advance advanced balanced told (by rw [Claim.hasCalled, called, Bool.and_true])
      succeeded
  | answered advanced =>
    obtain ⟨told, -⟩ := shares.serves.advance shares.told_head advanced
    exact shares.advance advanced balanced told rfl succeeded
  | @finish folder answer =>
    by_cases same : d = folder
    · subst same
      obtain ⟨c, finished, -, shares'⟩ := shares.finish_self sound normal
      rwa [finished]
    · exact shares.finish_of_ne sound normal same

end World.Shares

namespace Pool

/-- Whether something that happens leaves alone what is known of a folder and of those above it, and
the tree of the store. -/
def Move.Spares (folder : String) (s : Store) : Move → Prop
  | .change o => ¬ o.Touches folder
  | .replace store => store = s
  | _ => True

section Shared

variable {cache remote : Nat} {d : String} {children : List Entry} {s : Store} {before : Nat}

/-- Nothing that happens elsewhere keeps loaders from sharing the listing of a folder. -/
theorem stable_shares (cache remote before : Nat) (children : List Entry) (sound : s.Sound)
    (normal : IsNormal d) :
    Stable cache remote (fun folder told => folder = d → told = some children)
      (fun folder answer => s.Tells folder answer ∧ (folder = d → answer.isOk)) (·.Spares d s)
      (fun e => ∀ answer, e = .answered d answer → answer.isOk)
      (World.Shares cache remote d children s before) where
  perm := World.Shares.perm
  free := World.Shares.free_iff
  elsewhere := by
    intro w w' claims shares caches remotes
    have same : w'.remoteAt remote = w.remoteAt remote := by
      rw [World.remoteAt, World.remoteAt, remotes]
    refine shares.of_caches caches ⟨?_, same ▸ shares.serves.store, same ▸ shares.serves.churn⟩ ?_
    · exact remotes ▸ shares.serves.remoteKept
    · rw [World.listCalls, World.listCalls, same]
  handles shares handles found := shares.handles sound normal handles fun answer same =>
    (found d answer same).2 rfl
  tells := by
    rintro w claims folder told shares - known rfl
    have loaded : ((w.cacheAt cache).childNames? folder).isSome := by
      rw [Cache.children?, normalize_of_isNormal normal, Option.map_eq_some_iff] at known
      obtain ⟨names, here, -⟩ := known
      rw [here]
      rfl
    exact known.symm.trans (shares.offers.loaded loaded)
  finds := by
    intro w w' claims folder stage answer shares advanced seen
    obtain ⟨told, -⟩ := shares.serves.advance (shares.told _ (List.mem_cons_self ..)) advanced
    exact ⟨told, fun same => seen answer (same ▸ rfl)⟩
  answers := by
    rintro w claims folder answer shares rfl
    obtain ⟨c, finished, told, -⟩ := shares.finish_self sound normal
    simp only [World.answer, World.onCache, finished]
    exact told
  change := by
    intro w claims o shares apart isLocal
    have here := World.cacheAt_setCache (c := o.apply (w.cacheAt cache)) shares.balanced.cacheKept
    obtain ⟨listed, most, count, known⟩ := shares.once
    refine ⟨shares.balanced.change isLocal,
      ⟨shares.serves.remoteKept, shares.serves.store, shares.serves.churn⟩, shares.told,
      shares.succeeded, here.symm ▸ shares.offers.apply normal isLocal apart, listed, most, count, ?_⟩
    rw [here, (Cache.childrenKept_apply isLocal apart normal shares.offers.named).names]
    exact known
  disturb := by
    intro w claims faults shares
    refine shares.of_caches rfl (shares.serves.setRemote shares.serves.store shares.serves.churn) ?_
    rw [World.listCalls, World.remoteAt_setRemote shares.serves.remoteKept]
    rfl
  replace := by
    rintro w claims store shares rfl
    refine shares.of_caches rfl (shares.serves.setRemote rfl shares.serves.churn) ?_
    rw [World.listCalls, World.remoteAt_setRemote shares.serves.remoteKept]
    rfl

/-- What a loader obtains of the folder is what is offered. -/
theorem eq_of_obtained {folder : String} {result : Except Failure (List Entry)}
    (obtained : Obtained (fun folder told => folder = d → told = some children)
      (fun folder answer => s.Tells folder answer ∧ (folder = d → answer.isOk)) folder result)
    (same : folder = d) : result = .ok children := by
  cases obtained with
  | known told => rw [Option.some.inj (told same)]
  | failed here => cases here.2 same
  | stale _ unknown => cases unknown same

end Shared

end Pool

/-! ### The beginning -/

/-- The children of a folder that a world has for all loaders: those that its cache knows, or else
those that its store lists, by name. -/
def World.childrenOf (w : World) (folder : String) : List Entry :=
  ((w.cacheAt w.cache).children? folder).getD
    (Task.sortByName (((w.remoteAt w.remote).store.list folder).toOption.getD []))

section Beginning

variable {w : World} {d : String}

/-- The children that a world has for all loaders are in strictly ascending order by name. -/
theorem World.pairwise_childrenOf (inStep : (w.cacheAt w.cache).InStep)
    (sound : (w.remoteAt w.remote).store.Sound) (normal : IsNormal d) :
    (w.childrenOf d).Pairwise fun a b => a.name < b.name := by
  rw [childrenOf]
  cases known : (w.cacheAt w.cache).children? d with
  | some children =>
    have loaded : (w.cacheAt w.cache).isLoaded d := by
      rw [Cache.children?, Option.map_eq_some_iff] at known
      obtain ⟨names, here, -⟩ := known
      rw [Cache.isLoaded, here]
      rfl
    obtain ⟨entries, told, ascending, -⟩ := inStep.consistent.children d loaded
    rw [known, Option.some.injEq] at told
    subst told
    exact List.pairwise_map.mp ascending
  | none =>
    cases lists : (w.remoteAt w.remote).store.list d with
    | error => exact Task.pairwise_sortByName List.Pairwise.nil
    | ok listed =>
      exact Task.pairwise_sortByName (Store.isListing_of_list sound normal lists).distinct

/-- A cache that nobody is listing for offers the children that the world has for all loaders. -/
theorem World.Unclaimed.offers (unclaimed : w.Unclaimed) (inStep : (w.cacheAt w.cache).InStep)
    (normal : IsNormal d) :
    (w.cacheAt w.cache).Offers d (w.childrenOf d) (w.remoteAt w.remote).store := by
  have free : (w.cacheAt w.cache).flight? d = none := by
    rw [← Option.not_isSome_iff_eq_none, Bool.not_eq_true]
    exact unclaimed.unmarked w.cache d
  refine ⟨by simp [free], by simp [free], fun _ _ loaded name member =>
    ((inStep.names loaded).mp member).1, fun loaded => ?_, fun unknown listed lists => ?_⟩
  · obtain ⟨names, here⟩ := Option.isSome_iff_exists.mp loaded
    rw [← normalize_of_isNormal normal] at here
    obtain ⟨entries, told, -⟩ := inStep.children?_eq here
    rw [World.childrenOf, told]
    rfl
  · rw [World.childrenOf, Cache.children?, normalize_of_isNormal normal, unknown, lists]
    rfl

/-- Without claims there are no marks to account for. -/
theorem World.Unclaimed.balanced (unclaimed : w.Unclaimed) : w.Balanced w.cache [] where
  cacheKept := unclaimed.current
  normal _ member := absurd member List.not_mem_nil
  balance folder := by
    rw [unclaimed.unmarked]
    rfl

/-- Before anything happens nobody holds a claim. -/
theorem Pool.keeps_of_unclaimed {known : String → Option (List Entry) → Prop}
    {found : String → Except Failure (List Entry) → Prop} {holds : World → List Claim → Prop}
    (unclaimed : w.Unclaimed) (here : holds w []) :
    Pool.Keeps w.cache w.remote known found holds ⟨w, []⟩ where
  cacheIs := rfl
  remoteIs := rfl
  background p member := by
    rw [unclaimed.background] at member
    cases member
  loaders := by
    refine ⟨[], rfl, fun _ member => absurd member List.not_mem_nil, ?_⟩
    rw [unclaimed.background]
    exact here

end Beginning

namespace Pool

/-- Whatever loaders and others do with a cache, at most one call that lists a folder waits for its
answer. And if the store keeps its tree, no listing of a folder fails and nobody else touches what is
known of the folder or of those above it, then the folder is listed at most once, and all loaders
return the same children of it, in strictly ascending order by name. -/
theorem listings_shared {w : World} (unclaimed : w.Unclaimed) (moves : List Move) :
    (∀ folder, (play ⟨w, []⟩ moves).2.outstanding folder ≤ 1) ∧
      ∀ d, IsNormal d → w.remote < w.remotes.length → (w.remoteAt w.remote).churn = [] →
        (w.remoteAt w.remote).store.Sound → (w.cacheAt w.cache).InStep →
        (∀ m ∈ moves, m.Spares d (w.remoteAt w.remote).store) →
        (∀ answer, .answered d answer ∈ (play ⟨w, []⟩ moves).1 → answer.isOk) →
        (play ⟨w, []⟩ moves).2.world.listCalls w.remote d ≤ w.listCalls w.remote d + 1 ∧
          ((w.childrenOf d).Pairwise fun a b => a.name < b.name) ∧
          ∀ folder result, .returned folder result ∈ (play ⟨w, []⟩ moves).1 →
            normalize folder = d → result = .ok (w.childrenOf d) := by
  refine ⟨fun folder => ?_, fun d normal remoteKept churn sound inStep spare succeed => ?_⟩
  · have allowed : ∀ m ∈ moves, (fun _ : Move => True) m := fun _ _ => trivial
    have keeps := (keeps_of_unclaimed unclaimed unclaimed.balanced).play
      (stable_balanced w.cache w.remote) allowed fun _ _ => trivial
    exact keeps.1.outstanding_le id
  · have shares : w.Shares w.cache w.remote d (w.childrenOf d) (w.remoteAt w.remote).store
        (w.listCalls w.remote d) [] := by
      refine ⟨unclaimed.balanced, ⟨remoteKept, rfl, churn⟩, fun _ member => ?_, fun _ member => ?_,
        unclaimed.offers inStep normal, 0, Nat.zero_le 1, rfl, fun one => ?_⟩
      · cases member
      · cases member
      · cases one
    obtain ⟨keeps, returns⟩ := (keeps_of_unclaimed unclaimed shares).play
      (stable_shares w.cache w.remote (w.listCalls w.remote d) (w.childrenOf d) sound normal)
      spare fun e member answer same => succeed answer (same ▸ member)
    obtain ⟨held, -, -, this⟩ := keeps.loaders
    exact ⟨this.listCalls_le, World.pairwise_childrenOf inStep sound normal,
      fun folder result member same => eq_of_obtained (returns folder result member) same⟩

section Crowd

private def slowWorld : World :=
  Trial.start { objects := [("/a", none), ("/a/f", some [])], listDelay := 1 } {} none none

private def crowd : List Move :=
  [.prefetch "/a", .ensure "/a/", .turn 0, .background 0, .turn 0, .ensure "//a", .turn 1, .pass 1,
    .change (.add (.folder "g" 0) "/b/g"), .background 0, .turn 1, .turn 0, .turn 0, .turn 0]

/-- The folder of something that is to be seen, and whether it is a success. -/
private def Event.outcome : Event → String × Bool
  | .answered folder answer => (folder, answer.isOk)
  | .returned folder result => (folder, result.isOk)

/-- The background lists the folder, and both loaders return what it found. -/
theorem listings_shared_crowd :
    (play ⟨slowWorld, []⟩ crowd).1.map Event.outcome = [("/a", true), ("/a/", true), ("//a", true)] ∧
      (play ⟨slowWorld, []⟩ crowd).2.outstanding "/a" ≤ 1 ∧
      (play ⟨slowWorld, []⟩ crowd).2.world.listCalls 0 "/a" ≤ slowWorld.listCalls 0 "/a" + 1 ∧
      ∀ folder result, .returned folder result ∈ (play ⟨slowWorld, []⟩ crowd).1 →
        normalize folder = "/a" → result = .ok (slowWorld.childrenOf "/a") := by
  have outcomes : (play ⟨slowWorld, []⟩ crowd).1.map Event.outcome =
      [("/a", true), ("/a/", true), ("//a", true)] := by decide +kernel
  have normal : IsNormal "/a" := by
    have same : normalize "/a" = "/a" := by decide +kernel
    exact same ▸ isNormal_normalize "/a"
  have sound : (slowWorld.remoteAt slowWorld.remote).store.Sound :=
    ((Store.built_fill _).protect false).sound
  have apart : ¬ Cache.Operation.Touches "/a" (.add (.folder "g" 0) "/b/g") := by
    rintro ⟨other, -, within, overtakes⟩
    have parent : parent? (normalize "/b/g") = some "/b" := by decide +kernel
    rw [Cache.Operation.overtakes, parent, decide_eq_true_eq, Option.some.injEq] at overtakes
    subst overtakes
    exact absurd within (by decide +kernel)
  have spare : ∀ m ∈ crowd, m.Spares "/a" (slowWorld.remoteAt slowWorld.remote).store := by
    simp only [crowd, List.forall_mem_cons]
    simp [Move.Spares, apart]
  have succeed : ∀ answer, .answered "/a" answer ∈ (play ⟨slowWorld, []⟩ crowd).1 → answer.isOk := by
    intro answer member
    have shown := List.mem_map_of_mem (f := Event.outcome) member
    rw [outcomes] at shown
    simpa [Event.outcome] using shown
  have shared := listings_shared (World.unclaimed_start _ _ _ _ : slowWorld.Unclaimed) crowd
  obtain ⟨calls, -, returns⟩ := shared.2 "/a" normal (by decide) rfl sound
    (Cache.inStep_of_rootOnly rfl) spare succeed
  exact ⟨outcomes, shared.1 "/a", calls, returns⟩

end Crowd

end Pool

end StoreShell
