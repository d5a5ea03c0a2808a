import StoreShell.Command.Operands
import StoreShell.Proofs.Steady
import StoreShell.Redirection

/-! # Two worlds that nothing can tell apart

Twins are steady worlds with the same store and the same working directory, whose caches both mirror
the store but need not know the same part of it. A script agrees on twins if it ends in both worlds
with one result. Agreement is put together from pieces as scripts are, and what a piece changes in
the stores is owed to both caches until the next pieces pay it.
-/

namespace StoreShell

open StoreShell.Path

/-- Steady worlds that differ at most in how much their caches know, once `f` has been done to
them. -/
structure Twins (cache remote : Nat) (f : Cache → Cache) (w v : World) : Prop where
  left : w.Owes cache remote f
  right : v.Owes cache remote f
  cwd : w.cwd = v.cwd
  settings : w.settings = v.settings
  store : (w.remoteAt remote).store = (v.remoteAt remote).store

/-- Whether a script ends with one result in both of two worlds. -/
def Agree {α : Type} (pre : World → World → Prop) (s : Script α)
    (post : α → World → World → Prop) : Prop :=
  ∀ w v, pre w v → ∃ a w' v', s.settle? w = some (a, w') ∧ s.settle? v = some (a, v') ∧ post a w' v'

section Rules

variable {α β : Type} {pre pre' : World → World → Prop}

namespace Agree

theorem done {a : α} {post : α → World → World → Prop}
    (holds : ∀ w v, pre w v → post a w v) : Agree pre (.done a) post :=
  fun w v twins => ⟨a, w, v, rfl, rfl, holds w v twins⟩

/-- What holds behind the first part is what the second one may count on. -/
theorem bind {s : Script α} {f : α → Script β} {mid : α → World → World → Prop}
    {post : β → World → World → Prop} (first : Agree pre s mid)
    (next : ∀ a, Agree (mid a) (f a) post) : Agree pre (s.bind f) post := by
  intro w v twins
  obtain ⟨a, w', v', one, other, holds⟩ := first w v twins
  obtain ⟨b, w'', v'', one', other', holds'⟩ := next a w' v' holds
  refine ⟨b, w'', v'', ?_, ?_, holds'⟩
  · rw [Script.settle?_bind, one]
    exact one'
  · rw [Script.settle?_bind, other]
    exact other'

/-- A weaker promise needs no more. -/
theorem mono {s : Script α} {post post' : α → World → World → Prop} (agree : Agree pre s post)
    (before : ∀ w v, pre' w v → pre w v) (after : ∀ a w v, post a w v → post' a w v) :
    Agree pre' s post' := by
  intro w v twins
  obtain ⟨a, w', v', one, other, holds⟩ := agree w v (before w v twins)
  exact ⟨a, w', v', one, other, after a w' v' holds⟩

/-- A single request agrees if both worlds answer it alike. -/
theorem request {r : Request} {post : r.Answer → World → World → Prop}
    (answers : ∀ w v, pre w v → (w.answer r).1 = (v.answer r).1 ∧
      post (w.answer r).1 (w.answer r).2 (v.answer r).2) : Agree pre (Script.request r) post := by
  intro w v twins
  obtain ⟨same, holds⟩ := answers w v twins
  refine ⟨(w.answer r).1, (w.answer r).2, (v.answer r).2, rfl, ?_, holds⟩
  rw [same]
  rfl

/-- A task that goes on if the one before it succeeded. -/
theorem andThen {t : Task α} {f : α → Task β} {mid : Except Failure α → World → World → Prop}
    {post : Except Failure β → World → World → Prop} (first : Agree pre t mid)
    (next : ∀ a, Agree (mid (.ok a)) (f a) post)
    (fails : ∀ failure w v, mid (.error failure) w v → post (.error failure) w v) :
    Agree pre (t >>= f : Task β) post := by
  refine Agree.bind first ?_
  intro result
  cases result with
  | ok a => exact next a
  | error failure => exact done (fails failure)

/-- A task that goes on because the one before it cannot fail. -/
theorem okThen {t : Task α} {f : α → Task β} {mid : α → World → World → Prop}
    {post : Except Failure β → World → World → Prop}
    (first : Agree pre t fun a w v => ∃ b, a = .ok b ∧ mid b w v)
    (next : ∀ a, Agree (mid a) (f a) post) : Agree pre (t >>= f : Task β) post := by
  refine first.andThen (fun a => (next a).mono ?_ fun _ _ _ => id) ?_
  · rintro w v ⟨b, same, holds⟩
    cases same
    exact holds
  · rintro failure w v ⟨b, same, -⟩
    cases same

theorem ask {r : Request} {post : r.Answer → World → World → Prop}
    (answers : ∀ w v, pre w v → (w.answer r).1 = (v.answer r).1 ∧
      post (w.answer r).1 (w.answer r).2 (v.answer r).2) :
    Agree pre (Task.ask r) fun a w v => ∃ b, a = .ok b ∧ post b w v :=
  (request answers).bind fun b => done fun _ _ holds => ⟨b, rfl, holds⟩

/-- Agreement is not about success: a failure that is caught is one in both worlds. -/
theorem attempt {t : Task α} {post : Except Failure α → World → World → Prop}
    (agree : Agree pre t post) :
    Agree pre (Task.attempt t) fun a w v => ∃ b, a = .ok b ∧ post b w v :=
  Agree.bind agree fun b => done fun _ _ holds => ⟨b, rfl, holds⟩

end Agree

end Rules

section Requests

variable {cache remote : Nat} {f : Cache → Cache} {α : Type}
  {post : Except Failure α → World → World → Prop}

/-- Looking at how things stand. -/
theorem agree_desk {k : Desk → Task α} (next : ∀ desk, desk.cache = cache → desk.remote = remote →
    desk.settings.prefetchOnCd = false → Agree (Twins cache remote f) (k desk) post) :
    Agree (Twins cache remote f) (Task.desk >>= k : Task α) post := by
  have looks : Agree (Twins cache remote f) Task.desk fun a w v => ∃ desk, a = .ok desk ∧
      (desk.cache = cache ∧ desk.remote = remote ∧ desk.settings.prefetchOnCd = false) ∧
        Twins cache remote f w v := by
    refine Agree.ask fun w v twins => ⟨?_, ⟨twins.left.cacheIs, twins.left.remoteIs, ?_⟩, twins⟩
    · simp only [World.answer, twins.left.cacheIs, twins.left.remoteIs, twins.right.cacheIs,
        twins.right.remoteIs, twins.cwd, twins.settings]
    · exact twins.left.quiet
  refine looks.okThen fun desk => ?_
  intro w v holds
  obtain ⟨⟨cacheIs, remoteIs, quiet⟩, twins⟩ := holds
  exact next desk cacheIs remoteIs quiet w v twins

/-- Reading a path from the working directory. -/
theorem agree_resolve {path : String} {k : String → Task α}
    (next : ∀ path, IsNormal path → Agree (Twins cache remote f) (k path) post) :
    Agree (Twins cache remote f) (Task.resolve path >>= k : Task α) post := by
  have looks := agree_desk (k := fun desk => k (Path.resolve desk.cwd path))
    fun desk _ _ _ => next _ (isNormal_resolve desk.cwd path)
  have same : (Task.resolve path >>= k : Task α) =
      Task.desk >>= fun desk => k (Path.resolve desk.cwd path) := by
    rw [Task.resolve, bind_assoc]
    rfl
  rwa [same]

/-- Telling a cache something that is owed to it. -/
theorem agree_tell {r : Request} {g : Cache → Cache} (unit : r.Answer = Unit)
    (tells : ∀ w : World, (w.answer r).2 = w.setCache cache (g (w.cacheAt cache)))
    (idle : ∀ c : Cache, (∀ folder, c.flight? folder = none) →
      ∀ folder, (g c).flight? folder = none) :
    Agree (Twins cache remote fun c => f (g c)) (Task.ask r) fun a w v =>
      ∃ b, a = .ok b ∧ Twins cache remote f w v := by
  refine Agree.ask fun w v twins => ⟨?_, ?_⟩
  · generalize (w.answer r).1 = a
    generalize (v.answer r).1 = b
    revert a b
    rw [unit]
    exact fun _ _ => rfl
  · rw [tells, tells]
    exact ⟨twins.left.pay (idle _ twins.left.idle), twins.right.pay (idle _ twins.right.idle),
      twins.cwd, twins.settings, twins.store⟩

/-- A new entry that is owed to the cache is told to it. -/
theorem agree_note {e : Entry} {path : String} :
    Agree (Twins cache remote fun c => f (c.add e path)) (Task.ask (.note cache path e))
      fun a w v => ∃ b, a = .ok b ∧ Twins cache remote f w v :=
  agree_tell rfl (fun w => rfl) fun c idle folder => by
    rw [← Option.not_isSome_iff_eq_none, Cache.isSome_flight?_add, idle]
    exact Bool.false_ne_true

/-- A removal that is owed to the cache is told to it. -/
theorem agree_forget {path : String} :
    Agree (Twins cache remote fun c => f (c.remove path)) (Task.ask (.forget cache path))
      fun a w v => ∃ b, a = .ok b ∧ Twins cache remote f w v :=
  agree_tell rfl (fun w => rfl) fun c idle folder => by
    rw [← Option.not_isSome_iff_eq_none, Cache.isSome_flight?_remove, idle]
    exact Bool.false_ne_true

/-- The cache is told that folders on the way may have changed, if that is owed to it. -/
theorem agree_forgetStale {path : String} :
    Agree (Twins cache remote fun c => f (c.forgetStale path)) (Task.ask (.forgetStale cache path))
      fun a w v => ∃ b, a = .ok b ∧ Twins cache remote f w v :=
  agree_tell rfl (fun w => rfl) fun c idle folder => by
    rw [← Option.not_isSome_iff_eq_none, Cache.isSome_flight?_forgetStale, idle]
    exact Bool.false_ne_true

/-- How twins stand after a change: if it succeeded, it is owed to the caches. -/
def Changed (cache remote : Nat) {β : Type} (owed : β → Cache → Cache) :
    Except Failure β → World → World → Prop
  | .ok b => Twins cache remote (owed b)
  | .error _ => Twins cache remote fun c => c

/-- A change of the store, given what it owes to a cache. -/
theorem agree_change {β : Type} {s : Script (Except Failure β)} (call : Call)
    {act : Store.Edit β} (harmless : ∀ store, act.Harmless store) (owed : β → Cache → Cache)
    (does : ∀ w : World, s.settle? w = some (((w.remoteAt remote).change call act).1,
      w.setRemote remote ((w.remoteAt remote).change call act).2))
    (keeps : ∀ {store store' : Store} {b}, store.Sound → store.HasRoot →
      act.result store = .ok (b, store') → store'.Sound ∧ store'.HasRoot ∧
        ∀ c : Cache, c.Mirrors store → (owed b c).Mirrors store') :
    Agree (Twins cache remote fun c => c) s (Changed cache remote owed) := by
  intro w v twins
  obtain ⟨r, change, after⟩ := twins.left.change call harmless owed keeps
  obtain ⟨r', change', after'⟩ := twins.right.change call harmless owed keeps
  rw [← twins.store] at change' after'
  have left := does w
  have right := does v
  rw [change] at left
  rw [change'] at right
  refine ⟨_, _, _, left, right, ?_⟩
  cases done : act.result (w.remoteAt remote).store with
  | error failure =>
    simp only [done] at after after'
    refine ⟨after.2, after'.2, twins.cwd, twins.settings, ?_⟩
    rw [World.remoteAt_setRemote twins.left.remoteKept,
      World.remoteAt_setRemote twins.right.remoteKept, after.1, after'.1]
  | ok result =>
    simp only [done] at after after'
    refine ⟨after.2, after'.2, twins.cwd, twins.settings, ?_⟩
    rw [World.remoteAt_setRemote twins.left.remoteKept,
      World.remoteAt_setRemote twins.right.remoteKept, after.1, after'.1]

/-- A folder that was made is owed to the cache, and so is what was made on the way to it. -/
theorem agree_makeFolder {path : String} (normal : IsNormal path) (parents : Bool) :
    Agree (Twins cache remote fun c => c) (Script.request (.makeFolder remote path parents))
      (Changed cache remote fun e c =>
        (if parents then c.forgetStale path else c).add e path) := by
  refine agree_change (.makeFolder path parents)
    (fun _ => Store.Edit.harmless_makeFolder path parents) _ (fun w => rfl) ?_
  intro store store' e sound root done
  have makes := Store.makesFolder_makeFolder sound done
  rw [normalize_of_isNormal normal] at makes
  exact ⟨makes.sound, makes.hasRoot root, fun c mirrors => mirrors.makesFolder sound makes⟩

theorem agree_remove (path : String) (recursive : Bool) :
    Agree (Twins cache remote fun c => c) (Script.request (.remove remote path recursive))
      (Changed cache remote fun _ c => c.remove path) := by
  refine agree_change (.remove path recursive)
    (fun _ => Store.Edit.harmless_remove path recursive) _ (fun w => rfl) ?_
  intro store store' _ sound root done
  have removes := Store.removes_remove (Store.remove_of_result done)
  refine ⟨removes.sound sound, removes.hasRoot root, fun c mirrors => ?_⟩
  rw [← Cache.remove_normalize]
  exact mirrors.removes removes

/-- Of a move the cache is owed both ends. -/
theorem agree_rename (source target : String) :
    Agree (Twins cache remote fun c => c) (Script.request (.rename remote source target))
      (Changed cache remote fun e c => (c.remove source).add e target) := by
  refine agree_change (.rename source target)
    (fun _ => Store.Edit.harmless_rename source target) _ (fun w => rfl) ?_
  intro store store' e sound root done
  have moves := Store.moves_rename sound done
  refine ⟨moves.sound, moves.hasRoot root, fun c mirrors => ?_⟩
  rw [← Cache.add_normalize, ← Cache.remove_normalize]
  exact mirrors.moves sound moves

theorem agree_upload (path : String) (content : Bytes) (append : Bool) :
    Agree (Twins cache remote fun c => c) (Script.request (.upload remote path content append))
      (Changed cache remote fun e c => c.add e path) := by
  have keeps : ∀ {store store' : Store} {e}, store.Sound → store.HasRoot →
      Store.WritesFile store store' (normalize path) e → store'.Sound ∧ store'.HasRoot ∧
        ∀ c : Cache, c.Mirrors store → (c.add e path).Mirrors store' := by
    intro store store' e sound root writes
    refine ⟨writes.sound sound, writes.hasRoot root, fun c mirrors => ?_⟩
    rw [← Cache.add_normalize]
    exact mirrors.writesFile writes
  cases append with
  | false =>
    exact agree_change (.write path content.length)
      (fun _ => Store.Edit.harmless_write path content) _ (fun w => rfl)
      fun sound root done => keeps sound root (Store.writesFile_write done)
  | true =>
    exact agree_change (.append path content.length)
      (fun _ => Store.Edit.harmless_append path content) _ (fun w => rfl)
      fun sound root done => keeps sound root (Store.writesFile_append done)

theorem agree_enter (folder : String) :
    Agree (Twins cache remote f) (Task.ask (.enter folder)) fun a w v =>
      ∃ b, a = .ok b ∧ Twins cache remote f w v := by
  refine Agree.ask fun w v twins => ⟨rfl, ?_⟩
  have moved : ∀ {w : World}, w.Owes cache remote f → (w.setCwd folder).Owes cache remote f :=
    fun owes => ⟨⟨owes.cacheIs, owes.remoteIs, owes.cacheKept, owes.remoteKept, owes.background,
      owes.live, owes.quiet, owes.plain, owes.sound, owes.root⟩, owes.idle, owes.mirrors⟩
  refine ⟨moved twins.left, moved twins.right, ?_, twins.settings, twins.store⟩
  simp only [World.answer, World.setCwd, World.resolve, twins.cwd]

/-! ### Looking -/

/-- A script agrees if what it ends with depends only on what twins share. -/
theorem agree_looking_then {β : Type} {s : Script β} (result : String → Store → β)
    (after : β → World → Prop) (looks : ∀ w : World, (w.Owes cache remote fun c => c) →
      ∃ w', s.settle? w = some (result w.cwd (w.remoteAt remote).store, w') ∧
        w.LookedFrom cache remote w' ∧ after (result w.cwd (w.remoteAt remote).store) w') :
    Agree (Twins cache remote fun c => c) s fun a w v =>
      Twins cache remote (fun c => c) w v ∧ after a w ∧ after a v := by
  intro w v twins
  obtain ⟨w', one, from_w, holds⟩ := looks w twins.left
  obtain ⟨v', other, from_v, holds'⟩ := looks v twins.right
  rw [← twins.cwd, ← twins.store] at other holds'
  refine ⟨_, w', v', one, other, ⟨from_w.toOwes, from_v.toOwes, ?_, ?_, ?_⟩, holds, holds'⟩
  · rw [from_w.cwd, from_v.cwd, twins.cwd]
  · rw [from_w.settings, from_v.settings, twins.settings]
  · rw [from_w.store, from_v.store, twins.store]

private theorem agree_looking {β : Type} {s : Script β} (result : String → Store → β)
    (looks : ∀ w : World, (w.Owes cache remote fun c => c) → ∃ w', s.settle? w =
      some (result w.cwd (w.remoteAt remote).store, w') ∧ w.LookedFrom cache remote w') :
    Agree (Twins cache remote fun c => c) s fun _ => Twins cache remote fun c => c := by
  refine (agree_looking_then result (fun _ _ => True) fun w owes => ?_).mono
    (fun _ _ => id) fun _ _ _ => And.left
  obtain ⟨w', settles, looked⟩ := looks w owes
  exact ⟨w', settles, looked, trivial⟩

/-- A command finds the cache and the store that are current. -/
theorem settle?_desk {w : World} (owes : w.Owes cache remote f) :
    Task.desk.settle? w = some (.ok ⟨w.cwd, cache, remote, w.settings⟩, w) := by
  rw [← owes.cacheIs, ← owes.remoteIs]
  rfl

theorem settle?_known (w : World) (cache : Nat) (path : String) :
    (Task.ask (.known cache path)).settle? w = some (.ok ((w.cacheAt cache).get? path), w) := rfl

private theorem settle?_stat {w : World} (owes : w.Owes cache remote fun c => c) (path : String) :
    ∃ w', (Script.request (.stat remote path)).settle? w =
        some ((w.remoteAt remote).store.stat path, w') ∧ w.LookedFrom cache remote w' := by
  obtain ⟨r, asked, looked⟩ := owes.query (.stat path) (·.stat path)
  refine ⟨_, ?_, looked⟩
  rw [Script.settle?_request, World.answer, World.onRemote, Remote.stat, asked]

/-- The entry of an object is what the store tells, wherever it comes from. -/
theorem agree_stat (path : String) :
    Agree (Twins cache remote fun c => c) (Task.stat path)
      fun _ => Twins cache remote fun c => c := by
  refine agree_looking (fun cwd store => store.stat (Path.resolve cwd path)) fun w owes => ?_
  have normal := isNormal_resolve w.cwd path
  rw [Task.stat, Script.settle?_andThen (settle?_desk owes)]
  dsimp only
  generalize Path.resolve w.cwd path = path at normal ⊢
  rw [Script.settle?_andThen (settle?_known w cache path)]
  cases known : (w.cacheAt cache).get? path with
  | some e =>
    rw [owes.stat_of_known normal known]
    exact ⟨w, rfl, owes.lookedFrom⟩
  | none =>
    obtain ⟨w', asked, looked⟩ := settle?_stat owes path
    cases told : (w.remoteAt remote).store.stat path with
    | error failure =>
      rw [told] at asked
      exact ⟨w', Script.settle?_andThen_error asked, looked⟩
    | ok e =>
      rw [told] at asked
      have noted := looked.toOwes.note normal (looked.store.symm ▸ told)
      exact ⟨_, Script.settle?_andThen asked, looked.trans noted⟩

private def Store.statIfAny (s : Store) (path : String) : Except Failure (Option Entry) :=
  match s.stat path with
  | .ok e => .ok (some e)
  | .error failure => if failure.isNotFound then .ok none else .error failure

/-- Whether there is an object to be written over is answered alike. -/
theorem agree_statIfAny {path : String} (normal : IsNormal path) :
    Agree (Twins cache remote fun c => c) (Redirect.statIfAny remote cache path)
      fun _ => Twins cache remote fun c => c := by
  refine agree_looking (fun _ store => store.statIfAny path) fun w owes => ?_
  rw [Redirect.statIfAny, Script.settle?_andThen (settle?_known w cache path), Store.statIfAny]
  cases known : (w.cacheAt cache).get? path with
  | some e =>
    rw [owes.stat_of_known normal known]
    exact ⟨w, rfl, owes.lookedFrom⟩
  | none =>
    obtain ⟨w', asked, looked⟩ := settle?_stat owes path
    have asked' := Script.settle?_attempt (t := Script.request (.stat remote path)) asked
    refine ⟨w', (Script.settle?_andThen asked').trans ?_, looked⟩
    cases (w.remoteAt remote).store.stat path with
    | error failure =>
      dsimp only
      split <;> rfl
    | ok e => rfl

theorem agree_statParent {path : String} (normal : IsNormal path) :
    Agree (Twins cache remote fun c => c) (Redirect.statParent remote cache path)
      fun _ => Twins cache remote fun c => c := by
  refine agree_looking (fun _ store => store.stat path) fun w owes => ?_
  rw [Redirect.statParent, Script.settle?_andThen (settle?_known w cache path)]
  cases known : (w.cacheAt cache).get? path with
  | some e =>
    rw [owes.stat_of_known normal known]
    exact ⟨w, rfl, owes.lookedFrom⟩
  | none => exact settle?_stat owes path

/-- What the store tells of a folder that it will not read. -/
theorem read_of_isFolder {w : World} (owes : w.Owes cache remote fun c => c) {path : String}
    (normal : IsNormal path)
    (folderly : ((w.cacheAt cache).get? path).any Entry.isFolder) :
    (w.remoteAt remote).store.read path = .error (.isDirectory path) := by
  cases known : (w.cacheAt cache).get? path with
  | none =>
    rw [known] at folderly
    cases folderly
  | some e =>
    rw [known] at folderly
    rw [Cache.get?_of_isNormal _ normal] at known
    obtain ⟨o, here, rfl⟩ := owes.mirrors.entry known
    simp only [Store.read, normalize_of_isNormal normal, here]
    exact if_pos folderly

/-- Reading a file leaves the store and the caches as they are. -/
theorem settle?_read {w : World} (owes : w.Owes cache remote fun c => c) (path : String) :
    ∃ w', (Script.request (.read remote path)).settle? w =
        some ((w.remoteAt remote).store.read path, w') ∧ w.LookedFrom cache remote w' := by
  obtain ⟨r, asked, looked⟩ := owes.query (.read path) (·.read path)
  refine ⟨_, ?_, looked⟩
  rw [Script.settle?_request, World.answer, World.onRemote, Remote.read, asked]

/-- The content of a file that is opened for input. -/
theorem agree_readInput {path : String} (normal : IsNormal path) :
    Agree (Twins cache remote fun c => c) (readInput remote cache path)
      fun _ => Twins cache remote fun c => c := by
  refine agree_looking (fun _ store => store.read path) fun w owes => ?_
  rw [readInput, Script.settle?_andThen (settle?_known w cache path)]
  by_cases folderly : ((w.cacheAt cache).get? path).any Entry.isFolder
  · rw [if_pos folderly, read_of_isFolder owes normal folderly]
    exact ⟨w, rfl, owes.lookedFrom⟩
  · rw [if_neg folderly]
    exact settle?_read owes path

/-- The children of a folder, wherever they come from. -/
theorem agree_ensureChildren (folder : String) :
    Agree (Twins cache remote fun c => c) (Task.ensureChildren cache remote folder)
      fun _ => Twins cache remote fun c => c := by
  refine agree_looking (fun _ store => store.list folder) fun w owes => ?_
  obtain ⟨w', settles, looked, -⟩ := owes.ensureChildren folder
  exact ⟨w', settles, looked⟩

end Requests

end StoreShell
