import StoreShell.Command.Changes
import StoreShell.Command.Folders
import StoreShell.Proofs.Agreement

/-! # Commands agree on twins

What commands do to the world between two uses of their streams agrees on twins and leaves twins
behind: everything that `mkdir`, `mv` and `cd` do, and the treatment of a single operand of `rm`. The
same holds of opening redirections and of closing them.
-/

namespace StoreShell

open StoreShell.Path

/-- Whether a script makes twins of twins and ends with one result in both. -/
abbrev Settled (cache remote : Nat) {α : Type} (s : Script α) : Prop :=
  Agree (Twins cache remote fun c => c) s fun _ => Twins cache remote fun c => c

variable {cache remote : Nat} {α β : Type}

theorem settled_pure (a : α) : Settled cache remote (pure a : Task α) :=
  Agree.done fun _ _ => id

theorem settled_throw (failure : Failure) : Settled cache remote (throw failure : Task α) :=
  Agree.done fun _ _ => id

/-- Settled work one after the other is settled, whether or not the first part fails. -/
theorem Settled.andThen {t : Task α} {f : α → Task β} (first : Settled cache remote t)
    (next : ∀ a, Settled cache remote (f a)) : Settled cache remote (t >>= f : Task β) :=
  Agree.andThen first next fun _ _ _ => id

theorem Settled.attempt {t : Task α} (settled : Settled cache remote t) :
    Settled cache remote (Task.attempt t) :=
  (Agree.attempt settled).mono (fun _ _ => id) fun _ _ _ ⟨_, _, twins⟩ => twins

/-- Whether a task makes twins of twins and, if it succeeds, ends in both with one result that has a
property. -/
abbrev SettledTo (cache remote : Nat) (holds : α → Prop) (t : Task α) : Prop :=
  Agree (Twins cache remote fun c => c) t fun result w v =>
    (∀ a, result = .ok a → holds a) ∧ Twins cache remote (fun c => c) w v

section SettledTo

variable {holds : α → Prop} {holds' : β → Prop}

theorem settledTo_pure {a : α} (here : holds a) : SettledTo cache remote holds (pure a : Task α) :=
  Agree.done fun _ _ twins => ⟨fun _ same => Except.ok.inj same ▸ here, twins⟩

theorem Settled.settledTo {t : Task α} (settled : Settled cache remote t) :
    SettledTo cache remote (fun _ => True) t :=
  settled.mono (fun _ _ => id) fun _ _ _ twins => ⟨fun _ _ => trivial, twins⟩

theorem SettledTo.settled {t : Task α} (settled : SettledTo cache remote holds t) :
    Settled cache remote t :=
  settled.mono (fun _ _ => id) fun _ _ _ => And.right

/-- What follows may count on the property that the result of the first part has. -/
theorem SettledTo.andThen {t : Task α} {f : α → Task β} (first : SettledTo cache remote holds t)
    (next : ∀ a, holds a → SettledTo cache remote holds' (f a)) :
    SettledTo cache remote holds' (t >>= f : Task β) := by
  refine Agree.andThen first (fun a => ?_) fun failure w v after => ⟨nofun, after.2⟩
  intro w v after
  exact next a (after.1 a rfl) w v after.2

end SettledTo

/-- A failure is reworded in the same way in both worlds. -/
theorem settled_statOr (path : String) (reword : Failure → Failure) :
    Settled cache remote (Task.statOr path reword) := by
  refine Agree.bind (agree_stat path) fun result => ?_
  cases result with
  | ok e => exact settled_pure e
  | error failure => exact settled_throw _

namespace Command

/-- By induction on the folders: each one is owed to the cache only until it is told. -/
theorem settled_mkdirAll (parents : Bool) (dirs : List String) :
    Settled cache remote (mkdirAll parents dirs) := by
  induction dirs with
  | nil => exact settled_pure ()
  | cons dir rest ih =>
    rw [mkdirAll]
    refine agree_resolve fun path normal => agree_desk fun desk _ remoteIs _ => ?_
    subst remoteIs
    refine (agree_makeFolder normal parents).andThen (fun e => ?_) fun _ _ _ => id
    refine agree_desk fun desk' cacheIs _ _ => ?_
    subst cacheIs
    cases parents with
    | true => exact agree_forgetStale.okThen fun _ => agree_note.okThen fun _ => ih
    | false => exact agree_note.okThen fun _ => ih

theorem settled_mkdir (args : List String) : Settled cache remote (mkdir args) := by
  rw [mkdir]
  dsimp only
  split
  · exact settled_throw _
  · exact settled_mkdirAll _ _

/-- The cache is told of a removal by the caller. Until then the removal is owed to it. -/
theorem settled_removeOperand (recursive force : Bool) (target path : String) :
    Agree (Twins cache remote fun c => c) (removeOperand recursive force target path) fun a =>
      match a with
      | .ok .removed => Twins cache remote fun c => c.remove path
      | _ => Twins cache remote fun c => c := by
  rw [removeOperand]
  refine (Agree.attempt (agree_stat path)).okThen fun result => ?_
  cases result with
  | ok e =>
    dsimp only
    split
    · exact Agree.done fun _ _ => id
    · refine agree_desk fun desk _ remoteIs _ => ?_
      subst remoteIs
      exact (agree_remove path recursive).andThen (fun _ => Agree.done fun _ _ => id)
        fun _ _ _ => id
  | error failure =>
    dsimp only
    split
    · exact Agree.done fun _ _ => id
    · split
      · exact Agree.done fun _ _ => id
      · exact Agree.done fun _ _ => id

/-- By induction on the objects. Each move is told to the cache before the next one begins. -/
theorem settled_mvAll (intoFolder : Bool) (dest : String) (sources : List String) :
    Settled cache remote (mvAll intoFolder dest sources) := by
  induction sources with
  | nil => exact settled_pure ()
  | cons source rest ih =>
    rw [mvAll]
    refine agree_resolve fun path _ => agree_desk fun desk _ remoteIs _ => ?_
    subst remoteIs
    refine (agree_rename path _).andThen (fun e => ?_) fun _ _ _ => id
    refine agree_desk fun desk' cacheIs _ _ => ?_
    subst cacheIs
    exact agree_forget.okThen fun _ => agree_note.okThen fun _ => ih

private theorem settled_mvOnce {intoFolder : Task Bool} (settled : Settled cache remote intoFolder)
    (dest path : String) (sources : List String) : Settled cache remote (do
      let intoFolder ← intoFolder
      if 1 < sources.length && !intoFolder then throw (.notADirectory dest)
      mvAll intoFolder path sources : Task Unit) := by
  refine settled.andThen fun intoFolder => ?_
  split
  · exact (settled_throw _).andThen fun _ => settled_mvAll _ _ _
  · exact settled_mvAll _ _ _

theorem settled_mv (args : List String) : Settled cache remote (mv args) := by
  rw [mv]
  dsimp only
  split
  · exact settled_throw _
  · next dest _ =>
    split
    · exact settled_throw _
    · refine agree_resolve fun path _ => ?_
      refine Settled.andThen (Settled.attempt (agree_stat path)) fun result => ?_
      cases result with
      | ok e => exact settled_mvOnce (settled_pure e.isFolder) dest path _
      | error failure =>
        dsimp only
        split
        · exact settled_mvOnce (settled_pure false) dest path _
        · exact settled_mvOnce (settled_throw failure) dest path _

theorem settled_changeTo (target : String) : Settled cache remote (changeTo target) := by
  rw [changeTo]
  refine agree_resolve fun path _ => ?_
  refine Settled.andThen (settled_statOr path _) fun e => ?_
  have enters : Settled cache remote (do
      Task.ask (.enter path)
      if (← Task.desk).settings.prefetchOnCd then Task.ask (.prefetch path) : Task Unit) := by
    refine (agree_enter path).okThen fun _ => agree_desk fun desk _ _ quiet => ?_
    rw [if_neg (by simp [quiet])]
    exact settled_pure ()
  split
  · exact (settled_throw _).andThen fun _ => enters
  · exact enters

theorem settled_cd (args : List String) : Settled cache remote (cd args) := by
  match args with
  | [] => exact agree_desk fun desk _ _ _ => settled_changeTo _
  | [target] => exact settled_changeTo target
  | _ :: _ :: _ => exact settled_throw _

end Command

namespace Redirect

/-- Whether a file can be written is decided by entries that a cache that mirrors its store cannot
get wrong. -/
theorem settled_checkTarget {path : String} (normal : IsNormal path) :
    Settled cache remote (checkTarget remote cache path) := by
  refine Settled.andThen (agree_statIfAny normal) fun found => ?_
  cases found with
  | some e =>
    dsimp only
    split
    · exact settled_throw _
    · exact settled_pure ()
  | none =>
    dsimp only
    cases parent : parent? path with
    | none => exact settled_throw _
    | some above =>
      refine Settled.andThen (agree_statParent (normal.of_parent? parent).1) fun e => ?_
      split
      · exact settled_throw _
      · exact settled_pure ()

/-- A redirection that writes, if at all, to a numbered store and tells a numbered cache. -/
def Belongs (cache remote : Nat) : Redirect → Prop
  | .discard => True
  | .upload other known _ _ => other = remote ∧ known = cache

/-- A redirection that is opened belongs to the cache and the store that are current. -/
theorem settled_open? (target : Target) :
    SettledTo cache remote (Belongs cache remote) (open? target) := by
  refine agree_desk fun desk cacheIs remoteIs _ => ?_
  subst cacheIs remoteIs
  dsimp only
  split
  · exact settledTo_pure trivial
  · refine (settled_checkTarget (isNormal_normalize _)).settledTo.andThen fun _ _ => ?_
    exact settledTo_pure ⟨rfl, rfl⟩

/-- What a redirection writes is told to the cache it belongs to. -/
theorem settled_finish {r : Redirect} (belongs : r.Belongs cache remote) (content : Bytes) :
    Settled cache remote (r.finish content) := by
  cases r with
  | discard => exact settled_pure ()
  | upload other known path append =>
    obtain ⟨rfl, rfl⟩ := belongs
    refine (agree_upload path content append).andThen (fun e => ?_) fun _ _ _ => id
    exact agree_note.mono (fun _ _ => id) fun _ _ _ ⟨_, _, twins⟩ => twins

end Redirect

/-- Both worlds read the same input. -/
theorem settled_openInput (path : String) : Settled cache remote (openInput path) := by
  refine agree_desk fun desk cacheIs remoteIs _ => ?_
  subst cacheIs remoteIs
  dsimp only
  split
  · exact settled_pure _
  · exact agree_readInput (isNormal_resolve _ _)

end StoreShell
