import StoreShell.Children
import StoreShell.Command.Operands
import StoreShell.Proofs.Tellings

/-! # Scripts that mix up nothing

While a script waits the storage area may be switched, and then another cache and another remote store
are current. A script is *loyal* if whatever it puts into a cache was told by the store that was current
together with that cache, so what it knows of one area never gets into the cache of another one.

Most scripts are loyal whatever happens while they wait, as they use a cache and a store that they have
found at the same time. Some look for the cache only after a store has changed something for them.
They are loyal as long as that store stays the current one until they have looked.
-/

namespace StoreShell

open StoreShell.Path

variable {α β : Type}

/-- A cache and a remote store, by their numbers, that were current together. -/
structure Pairing where
  cache : Nat
  remote : Nat
  deriving DecidableEq

def World.pairing (w : World) : Pairing := ⟨w.cache, w.remote⟩

def Desk.pairing (d : Desk) : Pairing := ⟨d.cache, d.remote⟩

/-- A cache that is found while a store is current is paired with the store. -/
theorem Desk.pairing_mem {remote : Nat} (d : Desk) (same : d.remote = remote)
    {pairings : List Pairing} : ⟨d.cache, remote⟩ ∈ d.pairing :: pairings :=
  same ▸ List.mem_cons_self ..

/-- Whether a remote store was current at some time. -/
def WasCurrent (pairings : List Pairing) (remote : Nat) : Prop :=
  ∃ cache, ⟨cache, remote⟩ ∈ pairings

/-- What was current once stays known as such. -/
theorem WasCurrent.mono {pairings more : List Pairing} {remote : Nat}
    (was : WasCurrent pairings remote) (known : pairings ⊆ more) : WasCurrent more remote :=
  was.imp fun _ paired => known paired

theorem Desk.wasCurrent (d : Desk) {pairings : List Pairing} :
    WasCurrent (d.pairing :: pairings) d.remote :=
  ⟨d.cache, List.mem_cons_self ..⟩

namespace Request

/-- Whether a request has a store change something under a name that a cache has to be told of. The
store was current at some time. -/
def IsChange (pairings : List Pairing) : Request → Prop
  | .makeFolder remote .. | .rename remote .. => WasCurrent pairings remote
  | _ => False

/-- Whether a request puts nothing into a cache and tells nothing of what is current. If it goes to a
store, that was current at some time. -/
def IsFree (pairings : List Pairing) : Request → Prop
  | .enter _ | .prefetch _ | .cancel | .known .. | .matching .. | .forget .. | .forgetStale .. => True
  | .stat remote _ | .read remote _ | .upload remote .. | .remove remote .. =>
    WasCurrent pairings remote
  | .desk | .note .. | .finishFetch .. | .makeFolder .. | .rename .. => False

variable {pairings more : List Pairing} {r : Request}

theorem IsChange.mono (change : r.IsChange pairings) (known : pairings ⊆ more) : r.IsChange more := by
  cases r with
  | makeFolder | rename => exact WasCurrent.mono change known
  | _ => cases change

theorem IsFree.mono (free : r.IsFree pairings) (known : pairings ⊆ more) : r.IsFree more := by
  cases r with
  | stat | read | upload | remove => exact WasCurrent.mono free known
  | _ => exact free

end Request

namespace Script

/-- Whether a script that knows of pairings and of tellings puts nothing into a cache but what was told
by the store that it is paired with. It may count on a store staying the current one. -/
inductive Loyal : List Pairing → List Telling → Option Nat → Script α → Prop where
  | done {pairings told} {a : α} : Loyal pairings told none (.done a)
  /-- It does not count on anything any more. -/
  | relax {pairings told remote s} : Loyal pairings told none s →
      Loyal pairings told (some remote) s
  | desk {pairings told stays next} : (∀ d : Desk, (∀ remote ∈ stays, d.remote = remote) →
      Loyal (d.pairing :: pairings) told none (next d)) → Loyal pairings told stays (.ask .desk next)
  /-- From now on it counts on the store that is current. -/
  | stay {pairings told next} : (∀ d : Desk,
      Loyal (d.pairing :: pairings) told (some d.remote) (next d)) →
      Loyal pairings told none (.ask .desk next)
  | change {pairings told stays r next} : r.IsChange pairings →
      (∀ a, Loyal pairings (r.tellings a ++ told) stays (next a)) →
      Loyal pairings told stays (.ask r next)
  | ask {pairings told r next} : r.IsFree pairings →
      (∀ a, Loyal pairings (r.tellings a ++ told) none (next a)) →
      Loyal pairings told none (.ask r next)
  | note {pairings told cache remote path e next} : ⟨cache, remote⟩ ∈ pairings →
      .object remote (normalize path) e ∈ told → (∀ a, Loyal pairings told none (next a)) →
      Loyal pairings told none (.ask (.note cache path e) next)
  | finish {pairings told cache remote folder entries next} : ⟨cache, remote⟩ ∈ pairings →
      (∀ all, entries = some all → Telling.ofListing remote folder (.ok all) ⊆ told) →
      (∀ a, Loyal pairings told none (next a)) →
      Loyal pairings told none (.ask (.finishFetch cache folder entries) next)
  | claim {pairings told cache folder next} : (∀ a, Loyal pairings told none (next a)) →
      Loyal pairings told none (.claim cache folder next)
  | list {pairings told l next} : WasCurrent pairings l.remote →
      (∀ a, Loyal pairings (Telling.ofListing l.remote l.folder a ++ told) none (next a)) →
      Loyal pairings told none (.list l next)
  | write {pairings told dest bytes next} : (∀ a, Loyal pairings told none (next a)) →
      Loyal pairings told none (.write dest bytes next)
  | flush {pairings told dest next} : (∀ a, Loyal pairings told none (next a)) →
      Loyal pairings told none (.flush dest next)
  | copy {pairings told copying next} : (∀ a, Loyal pairings told none (next a)) →
      Loyal pairings told none (.copy copying next)
  | collect {pairings told room sofar next} : (∀ a, Loyal pairings told none (next a)) →
      Loyal pairings told none (.collect room sofar next)
  | saved {pairings told which next} : (∀ a, Loyal pairings told none (next a)) →
      Loyal pairings told none (.saved which next)
  | release {pairings told next} : Loyal pairings told none next →
      Loyal pairings told none (.release next)
  | hang {pairings told} : Loyal pairings told none .hang

variable {pairings more : List Pairing} {told further : List Telling} {stays : Option Nat}
  {s : Script α}

/-- A script that knows of more is loyal still. -/
theorem Loyal.mono (loyal : Loyal pairings told stays s) (known : pairings ⊆ more)
    (heard : told ⊆ further) : Loyal more further stays s := by
  have heard' : ∀ {told further news : List Telling}, told ⊆ further →
      news ++ told ⊆ news ++ further := fun heard =>
    List.append_subset.mpr ⟨List.subset_append_left .., fun _ member =>
      List.mem_append_right _ (heard member)⟩
  induction loyal generalizing more further with
  | done => exact .done
  | hang => exact .hang
  | relax _ ih => exact .relax (ih known heard)
  | desk _ ih => exact .desk fun d same => ih d same (List.cons_subset_cons _ known) heard
  | stay _ ih => exact .stay fun d => ih d (List.cons_subset_cons _ known) heard
  | change is _ ih => exact .change (is.mono known) fun a => ih a known (heard' heard)
  | ask free _ ih => exact .ask (free.mono known) fun a => ih a known (heard' heard)
  | note paired said _ ih => exact .note (known paired) (heard said) fun a => ih a known heard
  | finish paired said _ ih =>
    exact .finish (known paired) (fun all same => List.Subset.trans (said all same) heard)
      fun a => ih a known heard
  | claim _ ih => exact .claim fun a => ih a known heard
  | list was _ ih => exact .list (was.mono known) fun a => ih a known (heard' heard)
  | write _ ih => exact .write fun a => ih a known heard
  | flush _ ih => exact .flush fun a => ih a known heard
  | copy _ ih => exact .copy fun a => ih a known heard
  | collect _ ih => exact .collect fun a => ih a known heard
  | saved _ ih => exact .saved fun a => ih a known heard
  | release _ ih => exact .release (ih known heard)

theorem loyal_done {a : α} : Loyal pairings told stays (.done a) := by
  cases stays with
  | none => exact .done
  | some remote => exact .relax .done

/-- A script that follows is loyal with all that has become current and was told meanwhile. -/
theorem Loyal.bind {f : α → Script β} (loyal : Loyal pairings told stays s)
    (next : ∀ a {more further}, pairings ⊆ more → told ⊆ further → Loyal more further none (f a)) :
    Loyal pairings told stays (s.bind f) := by
  induction loyal with
  | done => exact next _ (.refl _) (.refl _)
  | hang => exact .hang
  | relax _ ih => exact .relax (ih next)
  | desk _ ih =>
    exact .desk fun d same => ih d same fun a _ _ known heard =>
      next a (List.Subset.trans (List.subset_cons_self ..) known) heard
  | stay _ ih =>
    exact .stay fun d => ih d fun a _ _ known heard =>
      next a (List.Subset.trans (List.subset_cons_self ..) known) heard
  | change is _ ih =>
    exact .change is fun a => ih a fun b _ _ known heard =>
      next b known (List.Subset.trans (List.subset_append_right ..) heard)
  | ask free _ ih =>
    exact .ask free fun a => ih a fun b _ _ known heard =>
      next b known (List.Subset.trans (List.subset_append_right ..) heard)
  | list was _ ih =>
    exact .list was fun a => ih a fun b _ _ known heard =>
      next b known (List.Subset.trans (List.subset_append_right ..) heard)
  | note paired said _ ih => exact .note paired said fun a => ih a next
  | finish paired said _ ih => exact .finish paired said fun a => ih a next
  | claim _ ih => exact .claim fun a => ih a next
  | write _ ih => exact .write fun a => ih a next
  | flush _ ih => exact .flush fun a => ih a next
  | copy _ ih => exact .copy fun a => ih a next
  | collect _ ih => exact .collect fun a => ih a next
  | saved _ ih => exact .saved fun a => ih a next
  | release _ ih => exact .release (ih next)

end Script

open Script

variable {pairings : List Pairing} {told : List Telling}

section Tasks

theorem loyal_pure (a : α) : Loyal pairings told none (pure a : Task α) := .done

theorem loyal_throw (failure : Failure) : Loyal pairings told none (throw failure : Task α) := .done

/-- Loyal work goes on with loyal work, whatever was told and current by then. -/
theorem Script.Loyal.andThen {t : Task α} {f : α → Task β} (first : Loyal pairings told none t)
    (next : ∀ a {more further}, pairings ⊆ more → told ⊆ further → Loyal more further none (f a)) :
    Loyal pairings told none (t >>= f : Task β) := by
  refine Loyal.bind first fun result more further known heard => ?_
  cases result with
  | error failure => exact .done
  | ok a => exact next a known heard

/-- A failure that is caught was loyal up to there. -/
theorem Script.Loyal.attempt {t : Task α} (loyal : Loyal pairings told none t) :
    Loyal pairings told none (Task.attempt t) :=
  loyal.bind fun _ _ _ _ _ => .done

/-- A request that puts nothing into a cache is loyal. -/
theorem loyal_request {r : Request} (free : r.IsFree pairings) : Loyal pairings told none (request r) :=
  .ask free fun _ => .done

theorem loyal_ask {r : Request} (free : r.IsFree pairings) : Loyal pairings told none (Task.ask r) :=
  .ask free fun _ => .done

/-- A task that looks how things stand knows of what is current. -/
theorem loyal_desk {f : Desk → Task α}
    (next : ∀ d, Loyal (d.pairing :: pairings) told none (f d)) :
    Loyal pairings told none (Task.desk >>= f : Task α) :=
  .desk fun d _ => next d

theorem loyal_resolve (path : String) : Loyal pairings told none (Task.resolve path) :=
  loyal_desk fun _ => .done

theorem loyal_write (dest : Output) (bytes : Bytes) :
    Loyal pairings told none (Task.write dest bytes) :=
  .write fun _ => .done

theorem loyal_print (dest : Output) (text : String) :
    Loyal pairings told none (Task.print dest text) :=
  loyal_write dest _

theorem loyal_forget (path : String) : Loyal pairings told none (Task.forget path) :=
  loyal_desk fun _ => loyal_ask (by trivial)

/-- A store answers with the entry of an object, and a cache that it is paired with takes note. -/
theorem loyal_noteStat {cache remote : Nat} {path : String} (paired : ⟨cache, remote⟩ ∈ pairings)
    {f : Entry → Task α} (next : ∀ e {further}, told ⊆ further → Loyal pairings further none (f e)) :
    Loyal pairings told none (do
      let e ← Task.ofScript (.request (.stat remote path))
      Task.ask (.note cache path e)
      f e : Task α) := by
  refine .ask ⟨cache, paired⟩ fun answer => ?_
  cases answer with
  | error failure => exact .done
  | ok e =>
    exact .note paired (List.mem_cons_self ..) fun _ => next e (List.subset_append_right ..)

/-- An entry is put into the cache that was current together with the store that told it. -/
theorem loyal_stat (path : String) : Loyal pairings told none (Task.stat path) := by
  refine loyal_desk fun d => (loyal_ask (by trivial)).andThen fun known _ _ paired _ => ?_
  cases known with
  | some e => exact loyal_pure e
  | none => exact loyal_noteStat (paired (List.mem_cons_self ..)) fun e _ _ => loyal_pure e

theorem loyal_statOr (path : String) (reword : Failure → Failure) :
    Loyal pairings told none (Task.statOr path reword) := by
  refine (loyal_stat path).bind fun result _ _ _ _ => ?_
  cases result with
  | ok e => exact loyal_pure e
  | error failure => exact loyal_throw _

end Tasks

/-! ### The children of folders -/

section Children

variable {cache remote : Nat} (paired : ⟨cache, remote⟩ ∈ pairings)

include paired

private theorem loyal_listOnce {folder : String}
    {whenStale : List Entry → Script (Except Failure (List Entry))}
    (again : ∀ entries {further}, told ⊆ further → Loyal pairings further none (whenStale entries)) :
    Loyal pairings told none (Task.listOnce cache remote folder whenStale) := by
  refine .claim fun known => ?_
  cases known with
  | some children => exact .done
  | none =>
    refine .list ⟨cache, paired⟩ fun answer => ?_
    cases answer with
    | error failure => exact .finish paired (fun _ same => by cases same) fun _ => .done
    | ok entries =>
      refine .finish paired (fun all same => ?_) fun installed => ?_
      · cases same
        exact List.subset_append_left ..
      · cases installed with
        | some children => exact .done
        | none => exact again entries (List.subset_append_right ..)

/-- A listing is handed to the cache for which its store was called. -/
theorem loyal_ensureChildren (folder : String) :
    Loyal pairings told none (Task.ensureChildren cache remote folder) := by
  have attempts : ∀ again told, Loyal pairings told none
      (Task.ensureChildrenIn cache remote (normalize folder) again) := by
    intro again
    induction again with
    | zero => exact fun told => loyal_listOnce paired fun _ _ _ => .done
    | succ again ih => exact fun told => loyal_listOnce paired fun _ _ _ => ih _
  exact attempts _ _

private theorem loyal_preloadLevel (root : String) (folders : List String) :
    Loyal pairings told none (Task.preloadLevel cache remote root folders) := by
  induction folders generalizing pairings told with
  | nil => exact loyal_pure _
  | cons folder rest ih =>
    rw [Task.preloadLevel]
    refine (loyal_ensureChildren paired folder).attempt.andThen fun result _ _ known _ => ?_
    cases result with
    | error failure =>
      dsimp only
      split
      · exact (loyal_throw _).andThen fun _ _ _ known' _ => ih (known' (known paired))
      · exact ih (known paired)
    | ok children => exact (ih (known paired)).andThen fun _ _ _ _ _ => loyal_pure _

/-- Each folder is listed through one cache and one store that were current together. -/
theorem loyal_preload (folder : String) (depth : Nat) :
    Loyal pairings told none (Task.preload cache remote folder depth) := by
  have levels : ∀ root depth folders {pairings : List Pairing} {told},
      ⟨cache, remote⟩ ∈ pairings →
      Loyal pairings told none (Task.preloadLevels cache remote root depth folders) := by
    intro root depth
    induction depth with
    | zero => exact fun _ _ _ _ => loyal_pure _
    | succ depth ih =>
      intro folders pairings told paired
      cases folders with
      | nil => exact loyal_pure _
      | cons folder rest =>
        refine (loyal_preloadLevel paired root _).andThen fun found _ _ known _ => ?_
        exact (ih found.2 (known paired)).andThen fun _ _ _ _ _ => loyal_pure _
  exact levels _ _ _ paired

end Children

end StoreShell
