import StoreShell.Execution
import StoreShell.Proofs.Coupling

/-! # Commands are coupled

Each standard command takes the same stream operations from all matched worlds on, and so does what
is done once it has ended. Between two stream operations a command settles, so this follows from
agreement but for the error texts: two runs of `cat` may refuse a folder in different words, one of
them knowing the folder from its cache and the other one being told by the store.
-/

namespace StoreShell

open StoreShell.Path

variable {strict : Bool} {cache remote : Nat} {α β : Type}

section Rules

theorem coupled_pure (a : α) :
    Coupled strict cache remote (pure a : Task α) (pure a : Task α) := coupled_done _

theorem coupled_throw (failure : Failure) :
    Coupled strict cache remote (throw failure : Task α) (throw failure : Task α) := coupled_done _

/-- Coupled tasks go on with coupled tasks; a failure of the first part is one in both runs. -/
theorem Coupled.andThen {t u : Task α} {f g : α → Task β} (first : Coupled strict cache remote t u)
    (next : ∀ a, Coupled strict cache remote (f a) (g a)) :
    Coupled strict cache remote (t >>= f : Task β) (u >>= g : Task β) := by
  refine Coupled.bind first fun result => ?_
  cases result with
  | ok a => exact next a
  | error failure => exact coupled_done _

/-- A script that settles alike is coupled with itself. -/
theorem Settled.coupled {s : Script α} (settled : Settled cache remote s) :
    Coupled strict cache remote s s := by
  intro w v matched
  have alike : Alike strict cache remote (s.bind .done) (s.bind .done) w v :=
    Agree.alike settled (fun a w v twins one => .done ⟨twins, one⟩) matched.twins matched.one
  rwa [Script.bind_done] at alike

/-- A task that agrees goes on as what follows it does, if it failed to no effect. -/
theorem Agree.alikeThen {pre : World → World → Prop} {t : Task α}
    {post : Except Failure α → World → World → Prop} (agree : Agree pre t post) {f g : α → Task β}
    (next : ∀ a w v, post (.ok a) w v → (strict → w = v) →
      Alike strict cache remote (f a) (g a) w v)
    (fails : ∀ failure w v, post (.error failure) w v → Twins cache remote (fun c => c) w v)
    {w v : World} (before : pre w v) (one : strict → w = v) :
    Alike strict cache remote (t >>= f : Task β) (t >>= g : Task β) w v := by
  refine Agree.alike agree (fun result w v after one => ?_) before one
  cases result with
  | ok a => exact next a w v after one
  | error failure => exact .done ⟨fails failure w v after, one⟩

/-- Both runs write, and what they write matches. -/
theorem coupled_write {dest : Output} {bytes bytes' : Bytes}
    (matched : MatchedBytes strict dest bytes bytes') :
    Coupled strict cache remote (Task.write dest bytes) (Task.write dest bytes') :=
  fun _ _ worlds => .write worlds matched fun _ => coupled_done _

theorem coupled_print (dest : Output) (text : String) :
    Coupled strict cache remote (Task.print dest text) (Task.print dest text) :=
  coupled_write (Or.inl rfl)

/-- Both runs copy what they read, which is the same. -/
theorem coupled_copy : Coupled strict cache remote Task.copy Task.copy :=
  fun _ _ worlds => .copy worlds fun _ => coupled_done _

/-- A task that settles to something goes on as what follows it does. -/
theorem SettledTo.coupledThen {holds : α → Prop} {t : Task α}
    (settled : SettledTo cache remote holds t) {f g : α → Task β}
    (next : ∀ a, holds a → Coupled strict cache remote (f a) (g a)) :
    Coupled strict cache remote (t >>= f : Task β) (t >>= g : Task β) :=
  fun _ _ matched => Agree.alikeThen settled
    (fun a w v after one => next a (after.1 a rfl) w v ⟨after.2, one⟩) (fun _ _ _ => And.right)
    matched.twins matched.one

/-- Commands of both runs find the same cache and the same store current. -/
theorem settledTo_desk :
    SettledTo cache remote (fun desk => desk.cache = cache ∧ desk.remote = remote) Task.desk := by
  have looks : SettledTo cache remote (fun desk : Desk => desk.cache = cache ∧ desk.remote = remote)
      (Task.desk >>= pure : Task Desk) :=
    agree_desk fun desk cacheIs remoteIs _ => settledTo_pure ⟨cacheIs, remoteIs⟩
  rwa [bind_pure] at looks

theorem settled_resolve (path : String) : Settled cache remote (Task.resolve path) := by
  have resolves : Settled cache remote (Task.resolve path >>= pure : Task String) :=
    agree_resolve fun path _ => settled_pure path
  rwa [bind_pure] at resolves

end Rules

namespace Command

theorem coupled_succeed (args : List String) :
    Coupled strict cache remote (succeed args) (succeed args) := coupled_pure ()

theorem coupled_fail (args : List String) :
    Coupled strict cache remote (fail args) (fail args) := coupled_throw _

theorem coupled_echo (args : List String) :
    Coupled strict cache remote (echo args) (echo args) := by
  rw [echo.eq_def]
  split <;> exact coupled_print _ _

theorem coupled_pwd (args : List String) :
    Coupled strict cache remote (pwd args) (pwd args) := by
  exact settledTo_desk.coupledThen fun desk _ => coupled_print _ _

/-- What an operand of `cat` is read as: the content that the store has, or a failure. -/
theorem settle?_readOperand {w : World} (owes : w.Owes cache remote fun c => c)
    (arg : String) :
    ∃ result w', (readOperand arg).settle? w = some (result, w') ∧
      result.toOption = ((w.remoteAt remote).store.read (Path.resolve w.cwd arg)).toOption ∧
        w.LookedFrom cache remote w' := by
  have normal := isNormal_resolve w.cwd arg
  rw [readOperand, Script.settle?_andThen (settle?_desk owes)]
  dsimp only
  rw [Script.settle?_andThen (settle?_known w cache _)]
  by_cases folderly : ((w.cacheAt cache).get? (Path.resolve w.cwd arg)).any Entry.isFolder
  · rw [if_pos folderly, read_of_isFolder owes normal folderly]
    exact ⟨_, w, rfl, rfl, owes.lookedFrom⟩
  · rw [if_neg folderly]
    obtain ⟨w', told, looked⟩ := settle?_read owes (Path.resolve w.cwd arg)
    exact ⟨_, w', told, rfl, looked⟩

/-- Two runs read the same content or both fail. -/
theorem readOperand_of_matched {w v : World} (matched : Matched strict cache remote w v)
    (arg : String) :
    ∃ result result' w' v', (readOperand arg).settle? w = some (result, w') ∧
      (readOperand arg).settle? v = some (result', v') ∧
        result.toOption = result'.toOption ∧ (strict → result = result') ∧
          Matched strict cache remote w' v' := by
  have twins := matched.twins
  obtain ⟨result, w', left, content, from_w⟩ := settle?_readOperand twins.left arg
  obtain ⟨result', v', right, content', from_v⟩ := settle?_readOperand twins.right arg
  have same : strict → result = result' ∧ w' = v' := by
    intro equal
    rw [matched.one equal, right] at left
    exact ⟨congrArg Prod.fst (Option.some.inj left).symm,
      congrArg Prod.snd (Option.some.inj left).symm⟩
  refine ⟨result, result', w', v', left, right, ?_, fun equal => (same equal).1,
    ⟨⟨from_w.toOwes, from_v.toOwes, ?_, ?_, ?_⟩, fun equal => (same equal).2⟩⟩
  · rw [content, content', twins.cwd, twins.store]
  · rw [from_w.cwd, from_v.cwd, twins.cwd]
  · rw [from_w.settings, from_v.settings, twins.settings]
  · rw [from_w.store, from_v.store, twins.store]

private theorem encode_complaint (message : String) :
    Text.Utf8.encode s!"cat: {message}\n" ≠ [] := by
  change Text.Utf8.encode ("cat: " ++ message ++ "\n") ≠ []
  rw [Text.Utf8.encode, String.toList_append, String.toList_append]
  change String.utf8EncodeChar 'c' ++ _ ≠ []
  intro nothing
  have size := String.length_utf8EncodeChar 'c'
  rw [(List.append_eq_nil_iff.mp nothing).1] at size
  exact absurd size.symm (Nat.ne_of_gt (Char.utf8Size_pos 'c'))

private theorem coupled_catFiles (args : List String) :
    Coupled strict cache remote (catFiles args) (catFiles args) := by
  induction args with
  | nil => exact coupled_pure false
  | cons arg rest ih =>
    rw [catFiles]
    split
    · exact coupled_copy.andThen fun _ => ih
    · intro w v matched
      obtain ⟨result, result', w', v', left, right, content, same, matched'⟩ :=
        readOperand_of_matched matched arg
      refine Alike.settle_left (Script.settle?_attempt left)
        (Alike.settle_right (Script.settle?_attempt right) ?_)
      have complains : ∀ failure other : Failure, (strict → failure = other) →
          Coupled strict cache remote (do
            Task.print .err s!"cat: {failure.message}\n"
            let _ ← catFiles rest
            return true : Task Bool) (do
            Task.print .err s!"cat: {other.message}\n"
            let _ ← catFiles rest
            return true : Task Bool) := by
        intro failure other one
        refine Coupled.andThen (coupled_write ?_) fun _ => ih.andThen fun _ => coupled_pure true
        by_cases equal : strict
        · exact Or.inl (by rw [one equal])
        · exact Or.inr ⟨equal, rfl, encode_complaint _, encode_complaint _⟩
      cases result with
      | ok bytes =>
        cases result' with
        | ok bytes' =>
          obtain rfl := Option.some.inj content
          exact (Coupled.andThen (coupled_write (Or.inl rfl)) fun _ => ih) w' v' matched'
        | error failure' => cases content
      | error failure =>
        cases result' with
        | ok bytes' => cases content
        | error failure' =>
          exact complains failure failure' (fun equal => Except.error.inj (same equal)) w' v' matched'

/-- `cat` reads the same files, or the same input, in both runs. -/
theorem coupled_cat (args : List String) :
    Coupled strict cache remote (cat args) (cat args) := by
  rw [cat.eq_def]
  split
  · exact coupled_copy
  · refine (coupled_catFiles args).andThen fun failed => ?_
    split
    · exact coupled_throw _
    · exact coupled_pure ()

theorem coupled_mkdir (args : List String) :
    Coupled strict cache remote (mkdir args) (mkdir args) := (settled_mkdir args).coupled

theorem coupled_mv (args : List String) :
    Coupled strict cache remote (mv args) (mv args) := (settled_mv args).coupled

theorem coupled_cd (args : List String) :
    Coupled strict cache remote (cd args) (cd args) := (settled_cd args).coupled

/-- A removal is owed to the cache until the next request. -/
theorem coupled_rmAll (recursive force : Bool) (targets : List String) :
    Coupled strict cache remote (rmAll recursive force targets)
      (rmAll recursive force targets) := by
  induction targets with
  | nil => exact coupled_pure false
  | cons target rest ih =>
    rw [rmAll]
    refine (settled_resolve target).coupled.andThen fun path => ?_
    intro w v matched
    refine Agree.alikeThen (Agree.attempt (settled_removeOperand recursive force target path))
      (fun result w v after one => ?_) (fun failure w v after => ?_) matched.twins matched.one
    · obtain ⟨removal, same, after⟩ := after
      cases same
      rcases result with failure | removal
      · have complains : Coupled strict cache remote (do
            Task.print .err s!"rm: {failure.message}\n"
            let _ ← rmAll recursive force rest
            return true : Task Bool) (do
            Task.print .err s!"rm: {failure.message}\n"
            let _ ← rmAll recursive force rest
            return true : Task Bool) :=
          (coupled_print _ _).andThen fun _ => ih.andThen fun _ => coupled_pure true
        exact complains w v ⟨after, one⟩
      · cases removal with
        | removed =>
          have forgets : Agree (Twins cache remote fun c => c.remove path) (Task.forget path)
              fun _ => Twins cache remote fun c => c := by
            refine agree_desk fun desk cacheIs _ _ => ?_
            subst cacheIs
            exact agree_forget.mono (fun _ _ => id) fun _ _ _ ⟨_, _, twins⟩ => twins
          exact forgets.alikeThen (fun _ w v twins one => ih w v ⟨twins, one⟩)
            (fun _ _ _ => id) after one
        | passedOver => exact ih w v ⟨after, one⟩
    · obtain ⟨removal, same, -⟩ := after
      cases same

/-- The two runs of `rm` may report a failure differently, but they end with one verdict. -/
theorem coupled_rm (args : List String) :
    Coupled strict cache remote (rm args) (rm args) := by
  have removes : ∀ o : Operands, Coupled strict cache remote
      (do if ← rmAll (o.has 'r' || o.has 'R') (o.has 'f') o.operands then throw (.exitStatus 1) :
        Task Unit)
      (do if ← rmAll (o.has 'r' || o.has 'R') (o.has 'f') o.operands then throw (.exitStatus 1) :
        Task Unit) := by
    refine fun o => (coupled_rmAll _ _ _).andThen fun failed => ?_
    split
    · exact coupled_throw _
    · exact coupled_pure ()
  rw [rm]
  dsimp only
  split
  · exact (coupled_throw _).andThen fun _ => removes _
  · exact removes _

private theorem coupled_lsOperands (o : Operands) (headers : Bool) (sofar : String) (failed : Bool)
    (operands : List String) :
    Coupled strict cache remote (lsOperands o cache remote headers sofar failed operands)
      (lsOperands o cache remote headers sofar failed operands) := by
  induction operands generalizing sofar failed with
  | nil => exact coupled_pure _
  | cons operand rest ih =>
    rw [lsOperands]
    refine (settled_resolve operand).coupled.andThen fun path => ?_
    refine (Settled.attempt (agree_stat path)).coupled.andThen fun result => ?_
    cases result with
    | error failure => exact (coupled_print _ _).andThen fun _ => ih _ _
    | ok e =>
      dsimp only
      split
      · exact (Settled.coupled (agree_ensureChildren path)).andThen fun children => ih _ _
      · exact ih _ _

/-- Operands are examined with the same findings, and all that is written is made of these. -/
theorem coupled_ls (args : List String) :
    Coupled strict cache remote (ls args) (ls args) := by
  rw [ls]
  dsimp only
  refine settledTo_desk.coupledThen fun desk here => ?_
  obtain ⟨cacheIs, remoteIs⟩ := here
  subst cacheIs remoteIs
  refine (coupled_lsOperands _ _ _ _ _).andThen fun examined => ?_
  refine (coupled_print _ _).andThen fun _ => ?_
  split
  · exact coupled_throw _
  · exact coupled_pure ()

end Command

namespace Registry

/-- The standard commands are coupled, whatever their arguments are. -/
theorem coupled_standard {name : String} {command : Command}
    (found : standard.get? name = some command) (args : List String) :
    Coupled strict cache remote (command args) (command args) := by
  rcases get?_insertMany _ _ found with nothing | member
  · rw [get?, Std.TreeMap.getElem?_emptyc] at nothing
    cases nothing
  · simp only [List.mem_cons, Prod.mk.injEq, List.not_mem_nil, or_false] at member
    rcases member with ⟨-, rfl⟩ | ⟨-, rfl⟩ | ⟨-, rfl⟩ | ⟨-, rfl⟩ | ⟨-, rfl⟩ | ⟨-, rfl⟩ | ⟨-, rfl⟩ |
      ⟨-, rfl⟩ | ⟨-, rfl⟩ | ⟨-, rfl⟩
    · exact Command.coupled_echo args
    · exact Command.coupled_cat args
    · exact Command.coupled_succeed args
    · exact Command.coupled_fail args
    · exact Command.coupled_pwd args
    · exact Command.coupled_cd args
    · exact Command.coupled_ls args
    · exact Command.coupled_mkdir args
    · exact Command.coupled_rm args
    · exact Command.coupled_mv args

end Registry

end StoreShell
