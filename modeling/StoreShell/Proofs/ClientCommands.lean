import Mathlib.Data.Set.Basic
import Mathlib.Logic.Relation
import StoreShell.Command.Changes
import StoreShell.Proofs.CacheConsistency
import StoreShell.Proofs.Steady
import StoreShell.Redirection
import StoreShell.Script.Alone

/-! # What commands do as clients

A client changes the store and tells its cache of that, or does something to its cache alone.
`Client.Step` says what it may do while a folder is being listed. The commands that change the store,
and redirections that are closed, do such things to the current cache and store, whatever their
arguments are and however they end: `Task.Acts` holds of `mkdir`, `mv` and `rm`.
-/

namespace StoreShell

open StoreShell.Path

variable {α β : Type} {d : String} {w w' w'' : World}

/-! ### Steps of clients -/

/-- Whether something that is done to a cache does not deliver the children of a folder. -/
def Cache.Operation.Spares (d : String) : Operation → Prop
  | .addChildren folder _ | .finishFetch folder _ => normalize folder ≠ d
  | .add .. | .invalidate _ | .remove _ | .clear | .beginFetch _ => True

/-- The objects besides the one at a path that one store has and another one has not. -/
def Store.besides (path : String) (s s' : Store) : Set String :=
  { other | other ≠ path ∧ s.get? other = none ∧ ∃ o, s'.get? other = some o }

/-- What a client has: its cache, and the store, which nobody else changes. -/
structure Client where
  cache : Cache
  store : Store

namespace Client

/-- One thing that a client does while a folder is being listed, with the folders that it makes
without telling its cache. A change is made in the store, and the cache is told of it in the way
commands do it. Anything but the listing may be done to the cache alone: objects are looked at, other
folders are listed. -/
inductive Step (d : String) : Client → Set String → Client → Prop where
  | write {c s s' path content e} : s.write path content = .ok (e, s') →
      Step d ⟨c, s⟩ ∅ ⟨c.add e path, s'⟩
  | append {c s s' path content e} : s.append path content = .ok (e, s') →
      Step d ⟨c, s⟩ ∅ ⟨c.add e path, s'⟩
  | makeFolder {c s s' path e} : s.makeFolder path false = .ok (e, s') →
      Step d ⟨c, s⟩ ∅ ⟨c.add e path, s'⟩
  | makeFolders {c s s' path e} : s.makeFolder path true = .ok (e, s') →
      Step d ⟨c, s⟩ (s.besides (normalize path) s') ⟨(c.forgetStale path).add e path, s'⟩
  | remove {c s s' path recursive} : s.remove path recursive = .ok s' →
      Step d ⟨c, s⟩ ∅ ⟨c.remove path, s'⟩
  | rename {c s s' source target e} : s.rename source target = .ok (e, s') →
      Step d ⟨c, s⟩ ∅ ⟨(c.remove source).add e target, s'⟩
  | cached {c s} {o : Cache.Operation} : o.Spares d → Step d ⟨c, s⟩ ∅ ⟨o.apply c, s⟩

/-- Any number of things that a client does while a folder is being listed, with all folders that it
makes without telling its cache. -/
inductive Run (d : String) : Client → Set String → Client → Prop where
  | refl {m} : Run d m ∅ m
  | step {m m' m'' passed made} : Run d m passed m' → Step d m' made m'' →
      Run d m (passed ∪ made) m''

/-- What is made on the way adds up. -/
theorem Run.trans {m m' m'' : Client} {passed made : Set String} (first : Run d m passed m')
    (second : Run d m' made m'') : Run d m (passed ∪ made) m'' := by
  induction second with
  | refl => rwa [Set.union_empty]
  | step _ step ih =>
    rw [← Set.union_assoc]
    exact .step ih step

end Client

/-! ### What scripts come to -/

/-- Whether whatever a script comes to from a world, running alone, has a property. -/
def Script.Leaves (s : Script α) (w : World) (Q : α → World → Prop) : Prop :=
  ∀ scene, scene.world = w → ∀ a scene', s.run? scene = some (a, scene') → Q a scene'.world

/-- A change fails and leaves the store as it is, or it is made. -/
theorem Remote.change_cases (r : Remote) (call : Call) {act : Store.Edit α}
    (harmless : act.Harmless r.store) :
    (∃ failure r', r.change call act = (.error failure, r') ∧ r'.store = r.store) ∨
      ∃ a r', act.result r.store = .ok (a, r'.store) ∧ r.change call act = (.ok a, r') := by
  rw [change, receive]
  rcases Fault.take call r.faults with ⟨_ | failure, faults⟩
  · dsimp only
    rw [harmless.apply_eq]
    cases made : act.result r.store with
    | error failure => exact Or.inl ⟨failure, _, rfl, rfl⟩
    | ok result => exact Or.inr ⟨result.1, _, rfl, rfl⟩
  · exact Or.inl ⟨failure, _, rfl, rfl⟩

/-- A query leaves the store as it is. -/
theorem Remote.store_query (r : Remote) (call : Call) (look : Store → Except Failure α) :
    (r.query call look).2.store = r.store := by
  rw [query, receive]
  rcases Fault.take call r.faults with ⟨_ | failure, faults⟩ <;> rfl

/-- A question does not change the store. -/
theorem Remote.store_of_query {r r' : Remote} {call : Call} {look : Store → Except Failure α}
    {answer : Except Failure α} (asked : r.query call look = (answer, r')) :
    r'.store = r.store := by
  have same := r.store_query call look
  rwa [asked] at same

/-- What a service answers that does not fail is what its store has. -/
theorem Remote.look_of_query {r : Remote} {call : Call} {look : Store → Except Failure α}
    {a : α} (answered : (r.query call look).1 = .ok a) : look r.store = .ok a := by
  rw [query, receive] at answered
  rcases refused : Fault.take call r.faults with ⟨_ | failure, faults⟩
  · rw [refused] at answered
    exact answered
  · rw [refused] at answered
    cases answered

namespace Task

variable {Q : Except Failure β → World → Prop}

theorem leaves_done {result : Except Failure β} (here : Q result w) :
    (Script.done result).Leaves w Q := by
  rintro scene rfl a scene' ran
  cases ran
  exact here

/-- A task run alone goes on from where the first part has left its scene. -/
theorem run?_andThen (t : Task α) (f : α → Task β) (scene : Scene) :
    (t >>= f).toScript.run? scene = (t.toScript.run? scene).bind fun (result, scene) =>
      match result with
      | .ok a => (f a).toScript.run? scene
      | .error failure => some (.error failure, scene) := by
  refine (Script.run?_bind t.toScript _ scene).trans (congrArg _ (funext fun (result, scene) => ?_))
  cases result <;> rfl

theorem run?_attempt (t : Task α) (scene : Scene) :
    (attempt t).toScript.run? scene =
      (t.toScript.run? scene).map fun (result, scene) => (.ok result, scene) := by
  refine (Script.run?_bind t.toScript _ scene).trans ?_
  cases t.toScript.run? scene <;> rfl

/-- What follows a task has to do only with what the task leaves. -/
theorem leaves_andThen {t : Task α} {f : α → Task β} (first : t.toScript.Leaves w fun a w =>
      match a with
      | .ok a => (f a).toScript.Leaves w Q
      | .error failure => Q (.error failure) w) :
    (t >>= f).toScript.Leaves w Q := by
  intro scene here b scene' ran
  rw [run?_andThen] at ran
  obtain ⟨⟨a, between⟩, before, after⟩ := Option.bind_eq_some_iff.mp ran
  have reached := first scene here a between before
  cases a with
  | ok a => exact reached _ rfl b scene' after
  | error failure =>
    cases after
    exact reached

/-- A failure that is caught goes on like a result. -/
theorem leaves_attempt {t : Task α} {Q : Except Failure (Except Failure α) → World → Prop}
    (first : t.toScript.Leaves w fun a => Q (.ok a)) : (attempt t).toScript.Leaves w Q := by
  intro scene here b scene' ran
  rw [run?_attempt] at ran
  obtain ⟨⟨a, between⟩, before, after⟩ := Option.map_eq_some_iff.mp ran
  cases after
  exact first scene here a _ before

/-- A question is answered at once, in the world as it is. -/
theorem leaves_ask {r : Request} {f : r.Answer → Task β}
    (answered : (f (w.answer r).1).toScript.Leaves (w.answer r).2 Q) :
    (ask r >>= f).toScript.Leaves w Q := by
  rintro scene rfl b scene' ran
  exact answered _ rfl b scene' ran

/-- How things stand is known from the world. -/
theorem leaves_desk {f : Desk → Task β}
    (next : (f ⟨w.cwd, w.cache, w.remote, w.settings⟩).toScript.Leaves w Q) :
    (desk >>= f).toScript.Leaves w Q :=
  leaves_ask next

theorem leaves_resolve {path : String} {f : String → Task β}
    (next : (f (Path.resolve w.cwd path)).toScript.Leaves w Q) :
    (resolve path >>= f).toScript.Leaves w Q := by
  rintro scene rfl b scene' ran
  exact next _ rfl b scene' ran

/-- Nothing that is written changes the world. -/
theorem leaves_print {dest : Output} {text : String} {f : Unit → Task β}
    (failed : ∀ failure, Q (.error failure) w) (next : (f ()).toScript.Leaves w Q) :
    (print dest text >>= f).toScript.Leaves w Q := by
  refine leaves_andThen ?_
  rintro scene rfl a scene' ran
  have wrote : some ((scene.write dest (Text.Utf8.encode text)).1.mapError Failure.stream,
      (scene.write dest (Text.Utf8.encode text)).2) = some (a, scene') := ran
  obtain ⟨rfl, rfl⟩ := Prod.mk.inj (Option.some.inj wrote)
  rw [Scene.world_write]
  cases (scene.write dest (Text.Utf8.encode text)).1 with
  | ok => exact next
  | error e => exact failed _

end Task

/-! ### Clients -/

namespace World

def client (w : World) : Client := ⟨w.cacheAt w.cache, (w.remoteAt w.remote).store⟩

def tell (w : World) (g : Cache → Cache) : World := w.setCache w.cache (g (w.cacheAt w.cache))

/-- Whether there are the current cache and the current store. -/
def Stands (w : World) : Prop := w.cache < w.caches.length ∧ w.remote < w.remotes.length

theorem Stands.tell (stands : w.Stands) (g : Cache → Cache) : (w.tell g).Stands :=
  ⟨by simpa [World.tell, World.setCache] using stands.1, stands.2⟩

theorem Stands.setRemote (stands : w.Stands) (r : Remote) : (w.setRemote w.remote r).Stands :=
  ⟨stands.1, by simpa [World.setRemote] using stands.2⟩

/-- Telling the current cache something changes what the client has in its cache. -/
theorem Stands.client_tell (stands : w.Stands) (g : Cache → Cache) :
    (w.tell g).client = ⟨g w.client.cache, w.client.store⟩ := by
  change (⟨(w.tell g).cacheAt w.cache, _⟩ : Client) = _
  rw [World.tell, cacheAt_setCache stands.1]
  rfl

/-- Changing the current store changes what the client has in its store. -/
theorem Stands.client_setRemote (stands : w.Stands) (r : Remote) :
    (w.setRemote w.remote r).client = ⟨w.client.cache, r.store⟩ := by
  change (⟨_, ((w.setRemote w.remote r).remoteAt w.remote).store⟩ : Client) = _
  rw [remoteAt_setRemote stands.2]
  rfl

/-- Whether one world comes from another one by what a client does while a folder is listed. -/
structure Reaches (d : String) (w w' : World) : Prop where
  stands : w'.Stands
  run : ∃ passed, Client.Run d w.client passed w'.client

theorem Stands.reaches (stands : w.Stands) : w.Reaches d w := ⟨stands, _, .refl⟩

/-- One after the other, the steps of a client are those of a client. -/
theorem Reaches.trans (first : w.Reaches d w') (second : w'.Reaches d w'') : w.Reaches d w'' := by
  obtain ⟨-, passed, run⟩ := first
  obtain ⟨stands, passed', run'⟩ := second
  exact ⟨stands, _, run.trans run'⟩

/-- A call that leaves the store as it is. -/
theorem Stands.reaches_setRemote (stands : w.Stands) {r : Remote}
    (same : r.store = (w.remoteAt w.remote).store) :
    w.Reaches d (w.setRemote w.remote r) := by
  refine ⟨stands.setRemote r, ∅, ?_⟩
  rw [stands.client_setRemote, same]
  exact .refl

/-- A change of the store that the cache is told of. -/
theorem Stands.reaches_change (stands : w.Stands) {r : Remote} {g : Cache → Cache}
    {made : Set String} (step : Client.Step d w.client made ⟨g w.client.cache, r.store⟩) :
    w.Reaches d ((w.setRemote w.remote r).tell g) := by
  refine ⟨(stands.setRemote r).tell g, ∅ ∪ made, .step .refl ?_⟩
  rw [(stands.setRemote r).client_tell, stands.client_setRemote]
  exact step

/-- A change of the store that the cache is told of in two parts. -/
theorem Stands.reaches_change_tell (stands : w.Stands) {r : Remote} {g g' : Cache → Cache}
    {made : Set String} (step : Client.Step d w.client made ⟨g' (g w.client.cache), r.store⟩) :
    w.Reaches d (((w.setRemote w.remote r).tell g).tell g') := by
  refine ⟨((stands.setRemote r).tell g).tell g', ∅ ∪ made, .step .refl ?_⟩
  rw [((stands.setRemote r).tell g).client_tell, (stands.setRemote r).client_tell,
    stands.client_setRemote]
  exact step

/-- Telling the cache something that the store has nothing to do with. -/
theorem Stands.reaches_cached {o : Cache.Operation} (stands : w.Stands) (spares : o.Spares d) :
    w.Reaches d (w.tell o.apply) := by
  refine ⟨stands.tell _, ∅ ∪ ∅, .step .refl ?_⟩
  rw [stands.client_tell]
  exact .cached spares

end World

/-- Whether a task does to the current cache and store what a client does while a folder is listed,
however it ends. -/
def Task.Acts (d : String) (t : Task α) : Prop :=
  ∀ w : World, w.Stands → t.toScript.Leaves w fun _ => w.Reaches d

namespace Task

theorem acts_pure (a : α) : Acts d (pure a : Task α) := fun _ stands => leaves_done stands.reaches

theorem acts_throw (failure : Failure) : Acts d (throw failure : Task α) :=
  fun _ stands => leaves_done stands.reaches

/-- Work of a client followed by work of a client is work of a client. -/
theorem Acts.andThen {t : Task α} {f : α → Task β} (first : Acts d t) (next : ∀ a, Acts d (f a)) :
    Acts d (t >>= f) := by
  intro w stands
  refine leaves_andThen fun scene here a scene' ran => ?_
  have reached := first w stands scene here a scene' ran
  cases a with
  | ok a => exact fun _ here b _ ran => reached.trans (next a _ reached.stands _ here b _ ran)
  | error failure => exact reached

/-- It does not matter how a task ends, so its failure may be caught. -/
theorem Acts.attempt {t : Task α} (acts : Acts d t) : Acts d (Task.attempt t) :=
  fun w stands => leaves_attempt (acts w stands)

/-- Going on in a world that was reached. -/
theorem Acts.from {t : Task α} (acts : Acts d t) (reached : w.Reaches d w') :
    t.toScript.Leaves w' fun _ => w.Reaches d :=
  fun _ here b _ ran => reached.trans (acts _ reached.stands _ here b _ ran)

theorem acts_resolve (path : String) : Acts d (resolve path) :=
  fun _ stands => leaves_resolve (leaves_done stands.reaches)

section Calls

variable {t : Task α} {f : α → Task β}

/-- Calling the service of the current store. -/
theorem leaves_call {Q : Except Failure β → World → Prop} (g : Remote → Except Failure α × Remote)
    (calls : ∀ scene, scene.world = w → t.toScript.run? scene =
      some ((g (w.remoteAt w.remote)).1,
        { scene with world := (w.setRemote w.remote (g (w.remoteAt w.remote)).2) }))
    (failed : ∀ failure r, g (w.remoteAt w.remote) = (.error failure, r) →
      Q (.error failure) (w.setRemote w.remote r))
    (done : ∀ a r, g (w.remoteAt w.remote) = (.ok a, r) →
      (f a).toScript.Leaves (w.setRemote w.remote r) Q) : (t >>= f).toScript.Leaves w Q := by
  refine leaves_andThen fun scene here a scene' ran => ?_
  rw [calls scene here] at ran
  generalize answered : g (w.remoteAt w.remote) = result at ran failed done
  obtain ⟨answer, r⟩ := result
  cases ran
  cases answer with
  | ok a => exact done a r rfl
  | error failure => exact failed failure r rfl

/-- A call that changes the store if it succeeds. -/
theorem leaves_change {Q : Except Failure β → World → Prop} (call : Call)
    {act : Store.Edit α} (harmless : ∀ store, act.Harmless store)
    (calls : ∀ scene, scene.world = w → t.toScript.run? scene =
      some (((w.remoteAt w.remote).change call act).1,
        { scene with world := (w.setRemote w.remote ((w.remoteAt w.remote).change call act).2) }))
    (failed : ∀ failure r, r.store = (w.remoteAt w.remote).store →
      Q (.error failure) (w.setRemote w.remote r))
    (done : ∀ a r, act.result w.client.store = .ok (a, r.store) →
      (f a).toScript.Leaves (w.setRemote w.remote r) Q) :
    (t >>= f).toScript.Leaves w Q := by
  refine leaves_call (·.change call act) calls (fun failure r answered => ?_)
    (fun a r answered => ?_) <;>
    rcases (w.remoteAt w.remote).change_cases call (harmless _) with
      ⟨failure', r', changed, same⟩ | ⟨a', r', made, changed⟩ <;>
    cases answered.symm.trans changed
  · exact failed failure r same
  · exact done a r made

/-- If a folder is made then by the store. A call that fails leaves the store as it is. -/
theorem leaves_makeFolder (stands : w.Stands) {path : String} {parents : Bool} {f : Entry → Task β}
    (done : ∀ e r, w.client.store.makeFolder path parents = .ok (e, r.store) →
      (f e).toScript.Leaves (w.setRemote w.remote r) fun _ => w.Reaches d) :
    (ofScript (.request (.makeFolder w.remote path parents)) >>= f).toScript.Leaves w
      fun _ => w.Reaches d :=
  leaves_change (.makeFolder path parents) (fun _ => Store.Edit.harmless_makeFolder path parents)
    (fun scene here => by subst here; rfl) (fun _ _ => stands.reaches_setRemote) done

/-- If an object is moved then by the store. A call that fails leaves the store as it is. -/
theorem leaves_rename (stands : w.Stands) {source target : String} {f : Entry → Task β}
    (done : ∀ e r, w.client.store.rename source target = .ok (e, r.store) →
      (f e).toScript.Leaves (w.setRemote w.remote r) fun _ => w.Reaches d) :
    (ofScript (.request (.rename w.remote source target)) >>= f).toScript.Leaves w
      fun _ => w.Reaches d :=
  leaves_change (.rename source target) (fun _ => Store.Edit.harmless_rename source target)
    (fun scene here => by subst here; rfl) (fun _ _ => stands.reaches_setRemote) done

/-- An upload that succeeds is a step of the client once its cache is told. -/
theorem leaves_upload (stands : w.Stands) {path : String} {content : Bytes} {append : Bool}
    {f : Entry → Task β}
    (done : ∀ e r, Client.Step d w.client ∅ ⟨w.client.cache.add e path, r.store⟩ →
      (f e).toScript.Leaves (w.setRemote w.remote r) fun _ => w.Reaches d) :
    (ofScript (.request (.upload w.remote path content append)) >>= f).toScript.Leaves w
      fun _ => w.Reaches d := by
  cases append with
  | true =>
    exact leaves_change (.append path content.length)
      (fun _ => Store.Edit.harmless_append path content)
      (fun scene here => by subst here; rfl) (fun _ _ => stands.reaches_setRemote)
      fun e r made => done e r (.append made)
  | false =>
    exact leaves_change (.write path content.length)
      (fun _ => Store.Edit.harmless_write path content)
      (fun scene here => by subst here; rfl) (fun _ _ => stands.reaches_setRemote)
      fun e r made => done e r (.write made)

end Calls

section Notices

variable {Q : Except Failure β → World → Prop} {f : Unit → Task β} {path : String}

/-- The current cache takes note of an object. -/
theorem leaves_note {e : Entry} (next : (f ()).toScript.Leaves (w.tell (·.add e path)) Q) :
    (ask (.note w.cache path e) >>= f).toScript.Leaves w Q :=
  leaves_ask (r := .note w.cache path e) next

theorem leaves_forget (next : (f ()).toScript.Leaves (w.tell (·.remove path)) Q) :
    (ask (.forget w.cache path) >>= f).toScript.Leaves w Q :=
  leaves_ask (r := .forget w.cache path) next

theorem leaves_forgetStale (next : (f ()).toScript.Leaves (w.tell (·.forgetStale path)) Q) :
    (ask (.forgetStale w.cache path) >>= f).toScript.Leaves w Q :=
  leaves_ask (r := .forgetStale w.cache path) next

end Notices

theorem leaves_known {Q : Except Failure β → World → Prop} {cache : Nat} {path : String}
    {f : Option Entry → Task β} (next : ∀ e, (f e).toScript.Leaves w Q) :
    (ask (.known cache path) >>= f).toScript.Leaves w Q :=
  leaves_ask (next _)

end Task

/-! ### Removals -/

/-- What `rm` does at a time: it asks for an object, which the cache takes note of if it is there,
or it has an object removed, which the cache forgets if it was there. -/
inductive World.RemovalStep (w : World) : World → Prop where
  | unknown {path failure r} : (w.remoteAt w.remote).stat path = (.error failure, r) →
      RemovalStep w (w.setRemote w.remote r)
  | noted {path e r} : (w.remoteAt w.remote).stat path = (.ok e, r) →
      RemovalStep w ((w.setRemote w.remote r).tell (·.add e path))
  | refused {path recursive failure r} :
      (w.remoteAt w.remote).remove path recursive = (.error failure, r) →
      RemovalStep w (w.setRemote w.remote r)
  | removed {path recursive r} : (w.remoteAt w.remote).remove path recursive = (.ok (), r) →
      RemovalStep w ((w.setRemote w.remote r).tell (·.remove path))

/-- What `rm` does in the course of time. -/
abbrev World.Removals : World → World → Prop := Relation.ReflTransGen World.RemovalStep

/-- A service that does not remove an object leaves its store as it is. -/
theorem Remote.store_of_remove_error {r r' : Remote} {path : String} {recursive : Bool}
    {failure : Failure} (refused : r.remove path recursive = (.error failure, r')) :
    r'.store = r.store := by
  rcases r.change_cases (.remove path recursive) (Store.Edit.harmless_remove path recursive) with
    ⟨failure', r', changed, same⟩ | ⟨_, r', made, changed⟩
  · cases refused.symm.trans changed
    exact same
  · cases refused.symm.trans changed

/-- A service that removes an object removes it from its store. -/
theorem Remote.remove_of_ok {r r' : Remote} {path : String} {recursive : Bool}
    (removed : r.remove path recursive = (.ok (), r')) :
    r.store.remove path recursive = .ok r'.store := by
  rcases r.change_cases (.remove path recursive) (Store.Edit.harmless_remove path recursive) with
    ⟨failure', r', changed, same⟩ | ⟨_, r', made, changed⟩
  · cases removed.symm.trans changed
  · cases removed.symm.trans changed
    exact Store.remove_of_result made

/-- What `rm` does at a time is what a client does. -/
theorem World.RemovalStep.reaches (step : w.RemovalStep w') (stands : w.Stands) :
    w.Reaches d w' := by
  cases step with
  | unknown asked => exact stands.reaches_setRemote (Remote.store_of_query asked)
  | noted asked =>
    have looked := stands.reaches_setRemote (d := d) (Remote.store_of_query asked)
    exact looked.trans (looked.stands.reaches_cached (o := .add _ _) trivial)
  | refused asked => exact stands.reaches_setRemote (Remote.store_of_remove_error asked)
  | removed asked => exact stands.reaches_change (.remove (Remote.remove_of_ok asked))

/-- Removing and telling the cache of it is what a client does. -/
theorem World.Stands.reaches_of_removals (stands : w.Stands) (removals : w.Removals w') :
    w.Reaches d w' := by
  induction removals with
  | refl => exact stands.reaches
  | tail _ step ih => exact ih.trans (step.reaches ih.stands)

namespace Task

/-- Looking an object up removes nothing. -/
theorem removals_stat (path : String) : (stat path).toScript.Leaves w fun _ => w.Removals := by
  refine leaves_desk (leaves_known fun known => ?_)
  split
  · exact leaves_done .refl
  · exact leaves_call (·.stat (Path.resolve w.cwd path)) (fun scene here => by subst here; rfl)
      (fun failure r asked => .single (.unknown asked)) fun e r asked =>
      leaves_note (w := w.setRemote w.remote r) (leaves_done (.single (.noted asked)))

/-- An entry that is looked up may be noted by the cache, which is a step of the client. -/
theorem acts_stat (path : String) : Acts d (stat path) :=
  fun _ stands scene here a scene' ran =>
    stands.reaches_of_removals (removals_stat path scene here a scene' ran)

end Task

namespace Command

/-- By induction on the folders, each of which is made and then told to the cache. -/
theorem acts_mkdirAll (parents : Bool) (dirs : List String) :
    Task.Acts d (mkdirAll parents dirs) := by
  induction dirs with
  | nil => exact Task.acts_pure ()
  | cons dir rest ih =>
    intro w stands
    rw [mkdirAll]
    refine Task.leaves_resolve (Task.leaves_desk (Task.leaves_makeFolder stands fun e r made =>
      Task.leaves_desk ?_))
    cases parents with
    | true =>
      exact Task.leaves_forgetStale (w := w.setRemote w.remote r)
        (Task.leaves_note (w := (w.setRemote w.remote r).tell _)
          (ih.from (stands.reaches_change_tell (.makeFolders made))))
    | false =>
      exact Task.leaves_note (w := w.setRemote w.remote r)
        (ih.from (stands.reaches_change (.makeFolder made)))

theorem acts_mkdir (args : List String) : Task.Acts d (mkdir args) := by
  rw [mkdir]
  dsimp only
  split
  · exact Task.acts_throw _
  · exact acts_mkdirAll _ _

/-- By induction on the objects, each of which is moved and then told to the cache. -/
theorem acts_mvAll (intoFolder : Bool) (dest : String) (sources : List String) :
    Task.Acts d (mvAll intoFolder dest sources) := by
  induction sources with
  | nil => exact Task.acts_pure ()
  | cons source rest ih =>
    intro w stands
    rw [mvAll]
    exact Task.leaves_resolve (Task.leaves_desk (Task.leaves_rename stands fun e r made =>
      Task.leaves_desk (Task.leaves_forget (w := w.setRemote w.remote r)
        (Task.leaves_note (w := (w.setRemote w.remote r).tell _)
          (ih.from (stands.reaches_change_tell (.rename made)))))))

private theorem acts_mvOnce {intoFolder : Task Bool} (acts : Task.Acts d intoFolder)
    (dest path : String) (sources : List String) : Task.Acts d (do
      let intoFolder ← intoFolder
      if 1 < sources.length && !intoFolder then throw (.notADirectory dest)
      mvAll intoFolder path sources : Task Unit) := by
  refine Task.Acts.andThen acts fun intoFolder => ?_
  split
  · exact Task.Acts.andThen (Task.acts_throw _) fun _ => acts_mvAll _ _ _
  · exact acts_mvAll _ _ _

theorem acts_mv (args : List String) : Task.Acts d (mv args) := by
  rw [mv]
  dsimp only
  split
  · exact Task.acts_throw _
  · next dest _ =>
    split
    · exact Task.acts_throw _
    · refine Task.Acts.andThen (Task.acts_resolve dest) fun path => ?_
      refine Task.Acts.andThen (Task.Acts.attempt (Task.acts_stat path)) fun result => ?_
      cases result with
      | ok e => exact acts_mvOnce (Task.acts_pure e.isFolder) dest path _
      | error failure =>
        dsimp only
        split
        · exact acts_mvOnce (Task.acts_pure false) dest path _
        · exact acts_mvOnce (Task.acts_throw failure) dest path _

/-- What `rm` removes for an operand is yet to be forgotten by the cache. -/
theorem removals_removeOperand {w : World} (recursive force : Bool) (target path : String) :
    (removeOperand recursive force target path).toScript.Leaves w fun result w' =>
      match result with
      | .ok .removed => w.Removals (w'.tell (·.remove path))
      | _ => w.Removals w' := by
  rw [removeOperand]
  refine Task.leaves_andThen (Task.leaves_attempt fun scene here found scene' ran => ?_)
  have looked := Task.removals_stat path scene here found scene' ran
  cases found with
  | ok e =>
    dsimp only
    split
    · exact Task.leaves_andThen (Task.leaves_done looked)
    · exact Task.leaves_desk (Task.leaves_call (·.remove path recursive)
        (fun scene here => by rw [← here]; rfl)
        (fun failure r asked => looked.tail (.refused asked))
        fun _ r asked => Task.leaves_done (looked.tail (.removed asked)))
  | error failure =>
    dsimp only
    split
    · exact Task.leaves_andThen (Task.leaves_done looked)
    · split
      · exact Task.leaves_done looked
      · exact Task.leaves_done looked

/-- By induction on the operands: each removal is followed by its telling. -/
theorem removals_rmAll {w : World} (recursive force : Bool) (targets : List String) :
    (rmAll recursive force targets).toScript.Leaves w fun _ => w.Removals := by
  induction targets generalizing w with
  | nil => exact Task.leaves_done .refl
  | cons target rest ih =>
    have goesOn {w' : World} (sofar : w.Removals w') :
        (rmAll recursive force rest).toScript.Leaves w' fun _ => w.Removals :=
      fun scene here a scene' ran => sofar.trans (ih scene here a scene' ran)
    rw [rmAll]
    refine Task.leaves_resolve (Task.leaves_andThen (Task.leaves_attempt ?_))
    intro scene here result scene' ran
    have sofar := removals_removeOperand recursive force target _ scene here result scene' ran
    cases result with
    | error failure =>
      refine Task.leaves_print (fun _ => sofar) (Task.leaves_andThen ?_)
      intro scene here a scene' ran
      have after := goesOn sofar scene here a scene' ran
      cases a with
      | error failure => exact after
      | ok failed => exact Task.leaves_done after
    | ok removal =>
      cases removal with
      | passedOver => exact goesOn sofar
      | removed => exact Task.leaves_desk (Task.leaves_forget (goesOn sofar))

private theorem acts_rmAll (recursive force : Bool) (targets : List String) :
    Task.Acts d (rmAll recursive force targets) :=
  fun _ stands scene here a scene' ran =>
    stands.reaches_of_removals (removals_rmAll recursive force targets scene here a scene' ran)

theorem acts_rm (args : List String) : Task.Acts d (rm args) := by
  have removes : ∀ o : Operands, Task.Acts d
      (do if ← rmAll (o.has 'r' || o.has 'R') (o.has 'f') o.operands then throw (.exitStatus 1) :
        Task Unit) := by
    refine fun o => Task.Acts.andThen (acts_rmAll _ _ _) fun failed => ?_
    split
    · exact Task.acts_throw _
    · exact Task.acts_pure ()
  rw [rm]
  dsimp only
  split
  · exact Task.Acts.andThen (Task.acts_throw _) fun _ => removes _
  · exact removes _

end Command

/-- A redirection that is closed writes to the store that is current, and tells the cache. -/
theorem Redirect.leaves_finish (stands : w.Stands) (path : String) (append : Bool)
    (content : Bytes) :
    ((Redirect.upload w.remote w.cache path append).finish content).toScript.Leaves w
      fun _ => w.Reaches d := by
  rw [finish]
  refine Task.leaves_upload stands fun e r step => ?_
  intro scene here a scene' ran
  cases ran
  change w.Reaches d (scene.world.answer (.note w.cache path e)).2
  rw [here]
  exact stands.reaches_change (g := (·.add e path)) step

end StoreShell
