import StoreShell.Proofs.PathSpellings
import StoreShell.Proofs.StoreChanges
import StoreShell.Proofs.UnreadRecords
import StoreShell.Trial

/-! # Forced removals

`rm` treats its operands one after the other, so a list of operands can be cut anywhere
(`rmAll_append`), and what it does to the world at a time is a `World.RemovalStep`. With `-f` an
operand that is not there is passed over, and all goes on as if it had not been given. But whether
it is there is looked up in the cache first. A client that has an entry of an object that somebody
else has removed asks the store to remove it, is refused, and reports that, keeping the entry.
`rm_forced_of_missing` tells the two cases apart.
-/

namespace StoreShell

open StoreShell.Path

/-! ### Operands among arguments -/

namespace Operands

/-- Flags and operands of arguments behind other ones: behind `--` there are only operands. -/
theorem ofArgs_append (front back : List String) :
    ofArgs (front ++ back) =
      if "--" ∈ front then { ofArgs front with operands := (ofArgs front).operands ++ back }
      else ⟨(ofArgs front).flags ++ (ofArgs back).flags,
        (ofArgs front).operands ++ (ofArgs back).operands⟩ := by
  induction front with
  | nil => rfl
  | cons arg rest ih =>
    rw [List.cons_append, ofArgs, ofArgs, ih]
    by_cases dashes : arg = "--"
    · simp [dashes]
    · by_cases later : "--" ∈ rest
      · cases isFlags arg <;> simp [dashes, later]
      · cases isFlags arg <;> simp [dashes, later, Ne.symm dashes]

/-- The operands of arguments that stand behind other ones. -/
def behind (front back : List String) : List String :=
  if "--" ∈ front then back else (ofArgs back).operands

/-- Arguments behind others are operands unless they are flags there. -/
theorem operands_append (front back : List String) :
    (ofArgs (front ++ back)).operands = (ofArgs front).operands ++ behind front back := by
  rw [ofArgs_append, behind]
  split <;> rfl

/-- Whether an argument counts as an operand behind other ones. -/
def IsOperand (front : List String) (arg : String) : Prop :=
  "--" ∈ front ∨ arg ≠ "--" ∧ isFlags arg = false

variable {front : List String} {target : String}

/-- An argument that counts as an operand comes first of those behind. -/
theorem IsOperand.behind_cons (operand : IsOperand front target) (back : List String) :
    behind front (target :: back) = target :: behind front back := by
  rw [behind, behind]
  rcases operand with dashes | ⟨plain, noFlags⟩
  · simp [dashes]
  · split
    · rfl
    · simp [ofArgs, plain, noFlags]

/-- An operand changes nothing about the flags. -/
theorem IsOperand.has_eq (operand : IsOperand front target) (back : List String) (flag : Char) :
    (ofArgs (front ++ target :: back)).has flag = (ofArgs (front ++ back)).has flag := by
  rw [has, has, ofArgs_append, ofArgs_append]
  rcases operand with dashes | ⟨plain, noFlags⟩
  · simp [dashes]
  · split
    · rfl
    · simp [ofArgs, plain, noFlags]

end Operands

namespace Command

variable {recursive force : Bool}

/-- Operands one after the other are removed as two batches are. -/
theorem rmAll_append (first second : List String) :
    rmAll recursive force (first ++ second) = do
      let failed ← rmAll recursive force first
      let failed' ← rmAll recursive force second
      return failed || failed' := by
  induction first with
  | nil => simp only [List.nil_append, rmAll, pure_bind, Bool.false_or, bind_pure]
  | cons target rest ih =>
    simp only [List.cons_append, rmAll, ih, bind_assoc]
    refine bind_congr fun path => bind_congr fun result => ?_
    rcases result with failure | _ | _
    · simp only [bind_assoc, pure_bind, Bool.true_or]
    · simp only [bind_assoc]
    · rfl

/-! ### What `rm` asks for -/

theorem prompt_removeOperand (recursive force : Bool) (target path : String) :
    (removeOperand recursive force target path).toScript.Prompt := by
  rw [removeOperand]
  refine (Task.confined_stat (fun _ => trivial) path).attempt.andThen fun result => ?_
  cases result with
  | ok e =>
    have asks : (do
        Task.ofScript (.request (.remove (← Task.desk).remote path recursive))
        return .removed : Task Removal).toScript.Prompt :=
      (Task.confined_ask trivial).andThen fun _ =>
        Script.Confined.andThen (.ask trivial fun _ => .done) fun _ => Task.confined_pure _
    dsimp only
    split
    · exact (Task.confined_throw _).andThen fun _ => asks
    · exact asks
  | error failure =>
    have answers : (if force then return .passedOver
        else throw (.notFound target) : Task Removal).toScript.Prompt := by
      split
      · exact Task.confined_pure _
      · exact Task.confined_throw _
    dsimp only
    split
    · exact (Task.confined_throw _).andThen fun _ => answers
    · exact answers

theorem prompt_rmAll (recursive force : Bool) (targets : List String) :
    (rmAll recursive force targets).toScript.Prompt := by
  induction targets with
  | nil => exact Task.confined_pure _
  | cons target rest ih =>
    rw [rmAll]
    refine (Task.prompt_resolve target).andThen fun path =>
      (prompt_removeOperand _ _ target path).attempt.andThen fun result => ?_
    rcases result with failure | _ | _
    · exact (Task.prompt_print _ _).andThen fun _ => ih.andThen fun _ => Task.confined_pure _
    · exact (Task.prompt_forget path).andThen fun _ => ih
    · exact ih

end Command

/-! ### Willing services -/

namespace Remote

/-- Whether a service does what it is asked for: no call is to fail, and its store can be
changed. -/
structure Willing (r : Remote) : Prop where
  faults : r.faults = []
  writable : r.store.readOnly = false

variable {r r' : Remote} {path : String} {recursive : Bool} {α : Type}

/-- A willing service stays willing when it is asked. -/
theorem Willing.of_stat (willing : r.Willing) {answer : Except Failure Entry}
    (asked : r.stat path = (answer, r')) : r'.Willing := by
  rw [stat, query_of_faultless willing.faults] at asked
  cases asked
  exact ⟨willing.faults, willing.writable⟩

/-- A willing service stays willing when it removes an object. -/
theorem Willing.of_remove (willing : r.Willing) {answer : Except Failure Unit}
    (asked : r.remove path recursive = (answer, r')) : r'.Willing := by
  have harmless : (Store.Edit.remove path recursive).Harmless r.store :=
    Store.Edit.harmless_remove path recursive
  rw [remove, change_of_faultless willing.faults _ harmless] at asked
  cases removed : (Store.Edit.remove path recursive).result r.store with
  | error failure =>
    rw [removed] at asked
    cases asked
    exact ⟨willing.faults, willing.writable⟩
  | ok made =>
    obtain ⟨_, store⟩ := made
    rw [removed] at asked
    cases asked
    have kept := Store.readOnly_remove (Store.remove_of_result removed)
    exact ⟨willing.faults, kept.trans willing.writable⟩

/-- How a willing service answers if it is asked for an object that is not there. -/
theorem Willing.stat_of_missing (willing : r.Willing) (normal : IsNormal path)
    (missing : r.store.get? path = none) :
    r.stat path = (.error (.notFound path), { r with calls := .stat path :: r.calls }) := by
  rw [stat, query_of_faultless willing.faults, Store.stat, normalize_of_isNormal normal, missing]

/-- Why an object cannot be removed that is not there. -/
def absence (path : String) : Failure :=
  if path = root then .remote "refusing to remove the root folder" else .notFound path

/-- How a willing service answers if it is to remove an object that is not there. -/
theorem Willing.remove_of_missing (willing : r.Willing) (normal : IsNormal path)
    (missing : r.store.get? path = none) :
    r.remove path recursive =
      (.error (absence path), { r with calls := .remove path recursive :: r.calls }) := by
  have refused : (Store.Edit.remove path recursive).apply r.store =
      (.error (absence path), r.store) := by
    rw [Store.Edit.remove, Store.Edit.apply_checkWritable_bind _ willing.writable, absence]
    dsimp only
    rw [normalize_of_isNormal normal]
    by_cases top : path = root
    · rw [Store.Edit.apply_check_bind_of_unfit _ _ (by simpa using top), if_pos top]
    · have absent := Store.contains_eq_false_iff.mpr missing
      rw [Store.Edit.apply_check_bind _ _ (by simpa using top), Store.Edit.apply_get_bind,
        Store.Edit.apply_check_bind_of_unfit _ _ absent, if_neg top]
  rw [remove, change_of_faultless willing.faults _ (Store.Edit.harmless_remove path recursive),
    Store.Edit.result, refused]

end Remote

/-! ### What stays while `rm` runs -/

/-- Whether a client has no object at a path, neither in its store nor in its cache. -/
structure Client.Lacks (m : Client) (path : String) : Prop where
  stored : m.store.get? path = none
  cached : m.cache.get? path = none

namespace World

variable {w w' : World} {path : String}

def service (w : World) : Remote := w.remoteAt w.remote

theorem setRemote_cases (w : World) (r : Remote) :
    (w.setRemote w.remote r).service = r ∨ w.setRemote w.remote r = w := by
  rcases Nat.lt_or_ge w.remote w.remotes.length with inside | outside
  · exact Or.inl (remoteAt_setRemote inside)
  · exact Or.inr (by rw [setRemote, List.set_eq_of_length_le outside])

/-- The current cache may be missing; then nothing is told. -/
theorem client_tell_cases (w : World) (g : Cache → Cache) :
    (w.tell g).client = ⟨g w.client.cache, w.client.store⟩ ∨ w.tell g = w := by
  rcases Nat.lt_or_ge w.cache w.caches.length with inside | outside
  · refine Or.inl ?_
    change (⟨(w.tell g).cacheAt w.cache, _⟩ : Client) = _
    rw [tell, cacheAt_setCache inside]
    rfl
  · exact Or.inr (by rw [tell, setCache, List.set_eq_of_length_le outside])

/-- Removing does not change the working directory. -/
theorem RemovalStep.cwd_eq (step : w.RemovalStep w') : w'.cwd = w.cwd := by
  cases step <;> rfl

private theorem willing_setRemote {r : Remote} (before : w.service.Willing) (after : r.Willing) :
    (w.setRemote w.remote r).service.Willing := by
  rcases w.setRemote_cases r with same | same
  · rwa [same]
  · rwa [same]

theorem RemovalStep.willing (step : w.RemovalStep w') (willing : w.service.Willing) :
    w'.service.Willing := by
  cases step with
  | unknown asked | noted asked => exact willing_setRemote willing (willing.of_stat asked)
  | refused asked | removed asked => exact willing_setRemote willing (willing.of_remove asked)

private theorem lacks_setRemote {r : Remote} (lacks : w.client.Lacks path)
    (missing : r.store.get? path = none) : (w.setRemote w.remote r).client.Lacks path := by
  rcases w.setRemote_cases r with same | same
  · exact ⟨(congrArg (·.store.get? path) same).trans missing, lacks.cached⟩
  · exact same.symm ▸ lacks

private theorem lacks_tell {g : Cache → Cache} (lacks : w.client.Lacks path)
    (unknown : (g w.client.cache).get? path = none) : (w.tell g).client.Lacks path := by
  rcases w.client_tell_cases g with same | same
  · rw [same]
    exact ⟨lacks.stored, unknown⟩
  · exact same.symm ▸ lacks

/-- What is neither in the store nor in the cache does not come there while objects are removed. -/
theorem RemovalStep.lacks (step : w.RemovalStep w') (normal : IsNormal path)
    (lacks : w.client.Lacks path) : w'.client.Lacks path := by
  cases step with
  | unknown asked =>
    exact lacks_setRemote lacks ((Remote.store_of_query asked).symm ▸ lacks.stored)
  | @noted other e r asked =>
    have looked : (w.setRemote w.remote r).client.Lacks path :=
      lacks_setRemote lacks ((Remote.store_of_query asked).symm ▸ lacks.stored)
    refine lacks_tell looked ?_
    have found : w.client.store.stat other = .ok e :=
      Remote.look_of_query (congrArg Prod.fst asked)
    have apart : normalize other ≠ path := by
      rintro rfl
      rw [Store.stat, lacks.stored] at found
      cases found
    rw [Cache.get?_of_isNormal _ normal, Cache.entryAt?_add, if_neg apart,
      ← Cache.get?_of_isNormal _ normal]
    exact looked.cached
  | refused asked =>
    exact lacks_setRemote lacks ((Remote.store_of_remove_error asked).symm ▸ lacks.stored)
  | @removed other recursive r asked =>
    have removes := Store.removes_remove (Remote.remove_of_ok asked)
    have left : r.store.get? path = none := by
      rw [removes.effect]
      split
      · rfl
      · exact lacks.stored
    refine lacks_tell (lacks_setRemote lacks left) ?_
    obtain ⟨above, parent⟩ := removes.normal.exists_parent? removes.deep
    rw [Cache.get?_of_isNormal _ normal, Cache.entryAt?_remove path parent]
    split
    · rfl
    · rw [← Cache.get?_of_isNormal _ normal]
      exact lacks.cached

/-- What one step of `rm` keeps is kept. -/
theorem Removals.keeps {P : World → Prop} (removals : w.Removals w')
    (step : ∀ {w w' : World}, w.RemovalStep w' → P w → P w') (before : P w) : P w' := by
  induction removals with
  | refl => exact before
  | tail _ last ih => exact step last ih

end World

/-! ### One operand -/

def World.record (w : World) (call : Call) : World :=
  w.setRemote w.remote { w.service with calls := call :: w.service.calls }

/-- Without records, a call that is recorded leaves no trace. -/
theorem World.unrecorded_record (w : World) (call : Call) :
    (w.record call).unrecorded = w.unrecorded := by
  rw [record, unrecorded_setRemote]
  change w.unrecorded.setRemote w.remote w.service.unrecorded = _
  rw [service, ← remoteAt_unrecorded, setRemote_self]

namespace Task

variable {scene : Scene} {path : String} {e : Entry}

/-- A task run alone goes on with the answer to its question. -/
theorem run?_ask_andThen {β : Type} (r : Request) (f : r.Answer → Task β) (scene : Scene) :
    (ask r >>= f).toScript.run? scene =
      (f (scene.world.answer r).1).toScript.run? { scene with world := (scene.world.answer r).2 } :=
  rfl

/-- An entry that the cache has is taken from there, and nothing else happens. -/
theorem run?_stat_of_known (normal : IsNormal path)
    (known : scene.world.client.cache.get? path = some e) :
    (stat path).toScript.run? scene = some (.ok e, scene) := by
  have answered : (scene.world.answer (.known scene.world.cache path)).1 = some e := known
  rw [stat, desk, run?_ask_andThen]
  dsimp only [World.answer]
  rw [normal.resolve_eq, run?_ask_andThen, answered]
  rfl

/-- An object that neither the cache nor the store has is not found, after one call. -/
theorem run?_stat_of_lacks (normal : IsNormal path) (willing : scene.world.service.Willing)
    (lacks : scene.world.client.Lacks path) :
    (stat path).toScript.run? scene =
      some (.error (.notFound path), { scene with world := scene.world.record (.stat path) }) := by
  have answered : (scene.world.answer (.known scene.world.cache path)).1 = none := lacks.cached
  rw [stat, desk, run?_ask_andThen]
  dsimp only [World.answer]
  rw [normal.resolve_eq, run?_ask_andThen, answered, run?_andThen]
  have ran : (ofScript (.request (.stat scene.world.remote path))).toScript.run? scene =
      some ((scene.world.service.stat path).1, { scene with world :=
        (scene.world.setRemote scene.world.remote (scene.world.service.stat path).2) }) := rfl
  rw [willing.stat_of_missing normal lacks.stored] at ran
  exact congrArg (Option.bind · _) ran

end Task

namespace Command

open Operands

variable {recursive force : Bool} {target path : String} {scene scene' between : Scene} {e : Entry}

/-- What `rm` does when it is known what becomes of an operand: the cache forgets what was removed,
and a failure is reported. -/
def concluded (path : String) (scene : Scene) : Except Failure Removal → Except Failure Bool × Scene
  | .ok .passedOver => (.ok false, scene)
  | .ok .removed => (.ok false, { scene with world := scene.world.tell (·.remove path) })
  | .error failure =>
    let (result, scene) := scene.write .err (Text.Utf8.encode s!"rm: {failure.message}\n")
    ((result.mapError .stream).map fun _ => true, scene)

/-- A failure is reported, and the operand counts as failed unless reporting fails. -/
theorem concluded_error_ne (path : String) (scene : Scene) (failure : Failure) :
    (concluded path scene (.error failure)).1 ≠ .ok false := by
  rw [concluded]
  rcases scene.write .err (Text.Utf8.encode s!"rm: {failure.message}\n") with ⟨_ | _, _⟩ <;> nofun

theorem world_concluded_error (path : String) (scene : Scene) (failure : Failure) :
    (concluded path scene (.error failure)).2.world = scene.world :=
  scene.world_write ..

/-- Of a single operand the cache is told if it was removed, and the failure is reported if it was
not. -/
theorem run?_rmAll_singleton {result : Except Failure Removal}
    (here : scene.world.resolve target = path)
    (ran : (removeOperand recursive force target path).toScript.run? scene =
      some (result, scene')) :
    (rmAll recursive force [target]).toScript.run? scene = some (concluded path scene' result) := by
  subst here
  have attempted := Task.run?_attempt
    (removeOperand recursive force target (scene.world.resolve target)) scene
  rw [ran] at attempted
  have split : (rmAll recursive force [target]).toScript.run? scene =
    (Task.attempt (removeOperand recursive force target (scene.world.resolve target)) >>= fun
      | .ok .passedOver => pure false
      | .ok .removed => do
        Task.forget (scene.world.resolve target)
        pure false
      | .error failure => do
        Task.print .err s!"rm: {failure.message}\n"
        let _ ← (pure false : Task Bool)
        return true : Task Bool).toScript.run? scene := rfl
  rw [split, Task.run?_andThen, attempted]
  rcases result with failure | _ | _
  · change (Task.print .err s!"rm: {failure.message}\n" >>= fun _ =>
      pure true : Task Bool).toScript.run? scene' = _
    rw [Task.run?_andThen, concluded]
    change Option.bind (some ((scene'.write .err _).1.mapError _, (scene'.write .err _).2)) _ = _
    rcases scene'.write .err (Text.Utf8.encode s!"rm: {failure.message}\n") with ⟨_ | _, _⟩ <;> rfl
  · rfl
  · rfl

/-- A missing operand that the cache has no entry of is passed over. -/
theorem run?_rmAll_of_lacks (recursive : Bool) (here : scene.world.resolve target = path)
    (willing : scene.world.service.Willing) (lacks : scene.world.client.Lacks path) :
    (rmAll recursive true [target]).toScript.run? scene =
      some (.ok false, { scene with world := scene.world.record (.stat path) }) := by
  have normal : IsNormal path := here ▸ isNormal_resolve _ _
  have ran : (removeOperand recursive true target path).toScript.run? scene =
      some (.ok .passedOver, { scene with world := scene.world.record (.stat path) }) := by
    rw [removeOperand, Task.run?_andThen, Task.run?_attempt,
      Task.run?_stat_of_lacks normal willing lacks]
    rfl
  exact run?_rmAll_singleton here ran

/-- Why an operand is refused that is missing, but that the cache has an entry of. -/
def refusal (recursive : Bool) (target path : String) (e : Entry) : Failure :=
  if e.isFolder && !recursive then .isDirectory target else Remote.absence path

/-- What is left of a scene when that was found out. -/
def afterRefusal (recursive : Bool) (path : String) (e : Entry) (scene : Scene) : Scene :=
  if e.isFolder && !recursive then scene
  else { scene with world := scene.world.record (.remove path recursive) }

/-- The refusal of a missing object leaves a record and nothing else. -/
theorem unrecorded_afterRefusal (recursive : Bool) (path : String) (e : Entry) (scene : Scene) :
    (afterRefusal recursive path e scene).world.unrecorded = scene.world.unrecorded := by
  rw [afterRefusal]
  split
  · rfl
  · exact scene.world.unrecorded_record _

/-- A missing operand that the cache has an entry of is refused. -/
theorem run?_rmAll_of_known (here : scene.world.resolve target = path)
    (willing : scene.world.service.Willing) (missing : scene.world.client.store.get? path = none)
    (known : scene.world.client.cache.get? path = some e) :
    (rmAll recursive force [target]).toScript.run? scene =
      some (concluded path (afterRefusal recursive path e scene)
        (.error (refusal recursive target path e))) := by
  have normal : IsNormal path := here ▸ isNormal_resolve _ _
  refine run?_rmAll_singleton here ?_
  rw [removeOperand, Task.run?_andThen, Task.run?_attempt, Task.run?_stat_of_known normal known,
    refusal, afterRefusal]
  dsimp only [Option.map_some, Option.bind_some]
  by_cases folder : (e.isFolder && !recursive) = true
  · rw [if_pos folder, if_pos folder, if_pos folder]
    rfl
  · rw [if_neg folder, if_neg folder, if_neg folder]
    have ran : (Task.ofScript (.request (.remove scene.world.remote path recursive))).toScript.run?
        scene = some ((scene.world.service.remove path recursive).1, { scene with world :=
          (scene.world.setRemote scene.world.remote
            (scene.world.service.remove path recursive).2) }) := rfl
    rw [willing.remove_of_missing normal missing] at ran
    rw [Task.desk, Task.run?_ask_andThen]
    dsimp only [World.answer]
    rw [Task.run?_andThen]
    exact congrArg (Option.bind · _) ran

/-! ### Several operands -/

/-- What `rm -f` does with the operands that are left, whether one in front of them has failed or
not. -/
def rmFrom (recursive failed : Bool) (targets : List String) : Task Unit :=
  rmAll recursive true targets >>= fun failed' =>
    if failed || failed' then throw (.exitStatus 1) else pure ()

/-- `rm` asks the world and writes, and does nothing else. -/
theorem prompt_rmFrom (recursive failed : Bool) (targets : List String) :
    (rmFrom recursive failed targets).toScript.Prompt := by
  refine (prompt_rmAll recursive true targets).andThen fun failed' => ?_
  split
  · exact Task.confined_throw _
  · exact Task.confined_pure _

/-- What `rm -f` does with its operands is a row of removals, each of which is told to the cache. -/
theorem removals_rmFrom {w : World} (failed : Bool) (targets : List String) :
    (rmFrom recursive failed targets).toScript.Leaves w fun _ => w.Removals := by
  refine Task.leaves_andThen fun scene here result scene' ran => ?_
  have removals := removals_rmAll recursive true targets scene here result scene' ran
  cases result with
  | error failure => exact removals
  | ok failed' =>
    dsimp only
    split
    · exact Task.leaves_done removals
    · exact Task.leaves_done removals

/-- The operands that are left are removed from where the ones in front of them have led to. -/
theorem run?_rmFrom_append {first : List String} {failed' : Bool}
    (reached : (rmAll recursive true first).toScript.run? scene = some (.ok failed', between))
    (failed : Bool) (second : List String) :
    (rmFrom recursive failed (first ++ second)).toScript.run? scene =
      (rmFrom recursive (failed || failed') second).toScript.run? between := by
  rw [rmFrom, rmAll_append, bind_assoc, Task.run?_andThen, reached]
  simp only [rmFrom, Option.bind_some, bind_assoc, pure_bind, Bool.or_assoc]

/-- Once an operand has failed, so does `rm`. -/
theorem exists_run?_rmFrom_of_failed {first : List String} {result : Except Failure Bool}
    (ran : (rmAll recursive true first).toScript.run? scene = some (result, scene'))
    (fails : result ≠ .ok false) (failed : Bool) (second : List String) :
    ∃ failure after, (rmFrom recursive failed (first ++ second)).toScript.run? scene =
      some (.error failure, after) := by
  cases result with
  | error failure =>
    refine ⟨failure, scene', ?_⟩
    rw [rmFrom, rmAll_append, bind_assoc, Task.run?_andThen, ran]
    rfl
  | ok failed' =>
    obtain rfl : failed' = true := by simpa using fails
    obtain ⟨result, after, ends⟩ :=
      (prompt_rmAll recursive true second).exists_run? scene'
    rw [run?_rmFrom_append ran, Bool.or_true, rmFrom, Task.run?_andThen]
    change ∃ _ _, Option.bind ((rmAll recursive true second).toScript.run? scene') _ = _
    rw [ends]
    cases result with
    | error failure => exact ⟨failure, after, rfl⟩
    | ok _ => exact ⟨.exitStatus 1, after, rfl⟩

/-- With an operand in front that is missing and not cached, `rm -f` goes on as without it. -/
theorem runUnrecorded?_rmFrom_of_lacks (here : scene.world.resolve target = path)
    (willing : scene.world.service.Willing) (lacks : scene.world.client.Lacks path)
    (recursive failed : Bool) (rest : List String) :
    (rmFrom recursive failed (target :: rest)).toScript.runUnrecorded? scene =
      (rmFrom recursive failed rest).toScript.runUnrecorded? scene ∧
    ∃ verdict after, (rmFrom recursive failed (target :: rest)).toScript.run? scene =
      some (verdict, after) ∧ after.world.client.Lacks path := by
  have normal : IsNormal path := here ▸ isNormal_resolve _ _
  have ran := run?_rmAll_of_lacks recursive here willing lacks
  have goesOn := run?_rmFrom_append ran failed rest
  rw [Bool.or_false] at goesOn
  change (rmFrom recursive failed (target :: rest)).toScript.run? scene = _ at goesOn
  constructor
  · have alike : Scene.unrecorded { scene with world := scene.world.record (.stat path) } =
        scene.unrecorded :=
      congrArg (fun world => { scene with world }) (scene.world.unrecorded_record _)
    rw [Script.runUnrecorded?, goesOn]
    exact (prompt_rmFrom recursive failed rest).runUnrecorded?_congr alike
  · have prompt := prompt_rmFrom recursive failed rest
    obtain ⟨verdict, after, ends⟩ :=
      prompt.exists_run? { scene with world := scene.world.record (.stat path) }
    have asked : scene.world.RemovalStep (scene.world.record (.stat path)) :=
      .unknown (willing.stat_of_missing normal lacks.stored)
    have later := removals_rmFrom failed rest _ rfl _ _ ends
    exact ⟨verdict, after, goesOn.trans ends,
      later.keeps (·.lacks normal) (asked.lacks normal lacks)⟩

/-! ### All operands -/

/-- Whether folders are to be removed with everything in them. -/
def removesFolders (args : List String) : Bool := (ofArgs args).has 'r' || (ofArgs args).has 'R'

/-- The operands of some arguments are removed from where the ones in front of them have led to. -/
theorem run?_rm_of_reached {front back : List String} {failed : Bool}
    (forced : (ofArgs (front ++ back)).has 'f')
    (folders : removesFolders (front ++ back) = recursive)
    (reached : (rmAll recursive true (ofArgs front).operands).toScript.run? scene =
      some (.ok failed, between)) :
    (rm (front ++ back)).toScript.run? scene =
      (rmFrom recursive failed (behind front back)).toScript.run? between := by
  have unfolded :
      rm (front ++ back) = rmFrom recursive false (ofArgs (front ++ back)).operands := by
    rw [rm, ← folders]
    dsimp only
    rw [forced, Bool.not_true, Bool.and_false]
    rfl
  rw [unfolded, operands_append, run?_rmFrom_append reached, Bool.false_or]

/-- An operand that is missing when it is its turn is passed over by `rm -f` if the cache has no
entry of it: the store is asked for it, and apart from the record of this call all goes on, and
ends, as without the operand, which is not in the cache then. But if the cache has an entry of it,
since somebody else has removed it from the store, then `rm -f` reports a failure and fails, and the
entry and all else stays as it is. -/
theorem rm_forced_of_missing {front back : List String} {failed : Bool}
    (operand : IsOperand front target) (forced : (ofArgs (front ++ back)).has 'f')
    (willing : scene.world.service.Willing)
    (reached : (rmAll (removesFolders (front ++ back)) true (ofArgs front).operands).toScript.run?
      scene = some (.ok failed, between))
    (missing : between.world.client.store.get? (scene.world.resolve target) = none) :
    let path := scene.world.resolve target
    let recursive := removesFolders (front ++ back)
    (between.world.client.cache.get? path = none →
      (rmAll recursive true [target]).toScript.run? between =
        some (.ok false, { between with world := between.world.record (.stat path) }) ∧
      (rm (front ++ target :: back)).toScript.runUnrecorded? scene =
        (rm (front ++ back)).toScript.runUnrecorded? scene ∧
      ∃ verdict after, (rm (front ++ target :: back)).toScript.run? scene = some (verdict, after) ∧
        after.world.client.cache.get? path = none) ∧
    ∀ e, between.world.client.cache.get? path = some e →
      let reported := concluded path (afterRefusal recursive path e between)
        (.error (refusal recursive target path e))
      (rmAll recursive true [target]).toScript.run? between = some reported ∧
      reported.2.world.unrecorded = between.world.unrecorded ∧
      reported.2.world.client.cache.get? path = some e ∧
      ∃ failure after,
        (rm (front ++ target :: back)).toScript.run? scene = some (.error failure, after) := by
  intro path recursive
  have removals : scene.world.Removals between.world :=
    removals_rmAll _ _ _ scene rfl _ _ reached
  have willing' : between.world.service.Willing := removals.keeps (·.willing) willing
  have cwd : between.world.cwd = scene.world.cwd :=
    removals.keeps (P := (·.cwd = scene.world.cwd)) (fun step same => step.cwd_eq.trans same) rfl
  have here : between.world.resolve target = path := congrArg (Path.resolve · target) cwd
  -- With the operand or without it, `rm` comes to its place in the same way.
  have folders : removesFolders (front ++ target :: back) = recursive := by
    rw [removesFolders, operand.has_eq, operand.has_eq]
    rfl
  have given := run?_rm_of_reached ((operand.has_eq back 'f').trans forced) folders reached
  have without := run?_rm_of_reached forced rfl reached
  rw [operand.behind_cons] at given
  constructor
  · intro unknown
    have lacks : between.world.client.Lacks path := ⟨missing, unknown⟩
    obtain ⟨same, verdict, after, ends, lacks'⟩ :=
      runUnrecorded?_rmFrom_of_lacks here willing' lacks recursive failed (behind front back)
    refine ⟨run?_rmAll_of_lacks recursive here willing' lacks, ?_, verdict, after, given.trans ends,
      lacks'.cached⟩
    rw [Script.runUnrecorded?, given, Script.runUnrecorded?, without]
    exact same
  · intro e known reported
    have ran : (rmAll recursive true [target]).toScript.run? between = some reported :=
      run?_rmAll_of_known here willing' missing known
    have unchanged : reported.2.world.unrecorded = between.world.unrecorded := by
      rw [← unrecorded_afterRefusal recursive path e between]
      exact congrArg World.unrecorded (world_concluded_error path _ _)
    have fails : reported.1 ≠ .ok false := concluded_error_ne path _ _
    refine ⟨ran, unchanged, ?_, ?_⟩
    · exact (congrArg (·.client.cache.get? path) unchanged).trans known
    · rw [given]
      exact exists_run?_rmFrom_of_failed ran fails failed _

section Bench

private def listened (world : World) : Scene := { world, sinks := ⟨.caller .out, .caller .err⟩ }

private def bench : World :=
  Trial.start { objects := [("/x", some []), ("/d/f", some [])] } {} none none

private def outdated : World :=
  match bench.run? (Task.stat "/x").toScript with
  | some (_, w) => (w.answer (.remove 0 "/x" false)).2
  | none => bench

/-- A file that is missing since the folder that it was in is removed in front of it, and one that
somebody else has removed. -/
theorem rm_forced_of_missing_within :
    (rm ["-rf", "/d", "d/f", "/x"]).toScript.runUnrecorded? (listened bench) =
      (rm ["-rf", "/d", "/x"]).toScript.runUnrecorded? (listened bench) ∧
    ∃ failure after, (rm ["/x", "-f"]).toScript.run? (listened outdated) =
      some (.error failure, after) := by
  constructor
  · have front : ((rmAll true true ["/d"]).toScript.run? (listened bench)).map
        (fun (result, s) => (result, s.world.client.store.get? "/d/f" |>.isNone,
          s.world.client.cache.get? "/d/f")) = some (.ok false, true, none) := by
      decide +kernel
    obtain ⟨⟨result, between⟩, reached, same⟩ := Option.map_eq_some_iff.mp front
    simp only [Prod.mk.injEq, Option.isNone_iff_eq_none] at same
    obtain ⟨rfl, missing, unknown⟩ := same
    have here : (listened bench).world.resolve "d/f" = "/d/f" := by decide +kernel
    have operand : IsOperand ["-rf", "/d"] "d/f" := Or.inr (by decide +kernel)
    have forced : (ofArgs (["-rf", "/d"] ++ ["/x"])).has 'f' := by decide +kernel
    obtain ⟨passed, -⟩ :=
      rm_forced_of_missing operand forced ⟨rfl, rfl⟩ reached (here.symm ▸ missing)
    exact (passed (here.symm ▸ unknown)).2.1
  · have isKnown : ((listened outdated).world.client.cache.get? "/x").isSome := by decide +kernel
    obtain ⟨e, known⟩ := Option.isSome_iff_exists.mp isKnown
    have here : (listened outdated).world.resolve "/x" = "/x" := by decide +kernel
    have missing : (listened outdated).world.client.store.get? "/x" = none :=
      Option.isNone_iff_eq_none.mp (by decide +kernel)
    have operand : IsOperand [] "/x" := Or.inr (by decide +kernel)
    have forced : (ofArgs ([] ++ ["-f"])).has 'f' := by decide +kernel
    have willing : (listened outdated).world.service.Willing :=
      ⟨by decide +kernel, by decide +kernel⟩
    obtain ⟨-, fails⟩ := rm_forced_of_missing operand forced willing rfl (here.symm ▸ missing)
    exact (fails e (here.symm ▸ known)).2.2.2

/-- A file that is cached but missing is reported, stays cached and makes `rm -f` fail. -/
theorem rm_forced_refuses_outdated :
    (outdated.client.store.get? "/x").isNone ∧
    ((rm ["-f", "/x"]).toScript.run? (listened outdated)).map (fun (verdict, s) => (verdict,
      s.outlets.callers.err.received.bytes, (s.world.client.cache.get? "/x").isSome)) =
      some (.error (.exitStatus 1), Text.Utf8.encode "rm: /x: no such file or directory\n",
        true) := by
  decide +kernel

end Bench

end Command

end StoreShell
