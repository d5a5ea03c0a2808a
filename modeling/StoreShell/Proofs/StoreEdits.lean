import StoreShell.Store

/-! # Requests that fail change nothing

A request checks a store and then changes it in place, so a failure that came between two changes
would leave the first one behind. `Edit.Harmless` says of an edit that it leaves a store as it was if
it fails. Edits that only look are harmless, and so are those that cannot fail; one after the other
they are harmless in that order. All five requests of a client are made like this. The move of a
subtree is the only one that looks once more after its changes: whether it has met the object that
it was to move, and it always has (`isSome_moveAll`).
-/

namespace StoreShell.Store

variable {α β : Type} {s s' : Store} {path source target : String}

namespace Edit

variable {e : Edit α} {f : α → Edit β}

/-! ### Edits that succeed -/

/-- A result comes with the store that the edit leaves. -/
theorem result_eq_ok_iff {a : α} : e.result s = .ok (a, s') ↔ e.apply s = (.ok a, s') := by
  rw [result]
  rcases e.apply s with ⟨_ | _, _⟩
  · simp
  · simp

/-- Two edits one after the other succeed if the second one does on what the first one leaves. -/
theorem apply_bind_eq_ok_iff {b : β} : (e >>= f).apply s = (.ok b, s') ↔
    ∃ a between, e.apply s = (.ok a, between) ∧ (f a).apply between = (.ok b, s') := by
  rw [apply_bind]
  rcases e.apply s with ⟨failure | a, between⟩
  · constructor
    · nofun
    · rintro ⟨_, _, answered, -⟩
      cases answered
  · constructor
    · exact fun done => ⟨a, between, rfl, done⟩
    · rintro ⟨_, _, answered, done⟩
      cases answered
      exact done

/-- What is done after a look goes on with the store that is there. -/
theorem apply_get_bind (f : Store → Edit α) (s : Store) :
    (get >>= f : Edit α).apply s = (f s).apply s := by
  rw [apply_bind, apply_get]

/-- A request goes on with the store that it looks at. -/
theorem of_get {f : Store → Edit α} {a : α}
    (done : (get >>= f : Edit α).apply s = (.ok a, s')) : (f s).apply s = (.ok a, s') := by
  rwa [apply_get_bind] at done

/-- A request that changes the store at last ends with that. -/
theorem of_modifyGet {change : Store → α × Store} {a : α}
    (done : (modifyGet change : Edit α).apply s = (.ok a, s')) : change s = (a, s') := by
  rw [apply_modifyGet, Prod.mk.injEq, Except.ok.injEq] at done
  exact Prod.ext done.1 done.2

@[simp] theorem apply_check (fine : Bool) (failure : Failure) (s : Store) :
    (check fine failure).apply s = (if fine then .ok () else .error failure, s) := by
  cases fine <;> rfl

theorem apply_checkWritable (s : Store) : checkWritable.apply s =
    (if s.readOnly then .error (.remote "storage is read-only") else .ok (), s) := by
  cases readOnly : s.readOnly <;> simp [checkWritable, apply_bind, readOnly]

theorem apply_checkWritable_bind (next : Edit α) (writable : s.readOnly = false) :
    (checkWritable >>= fun _ => next).apply s = next.apply s := by
  rw [apply_bind, apply_checkWritable, writable]
  rfl

/-- A check that is passed leaves no trace. -/
theorem apply_check_bind {fine : Bool} (failure : Failure) (next : Edit α) (fits : fine) :
    (check fine failure >>= fun _ => next).apply s = next.apply s := by
  rw [apply_bind, apply_check, if_pos fits]

/-- A check that fails ends the edit before anything is done. -/
theorem apply_check_bind_of_unfit {fine : Bool} (failure : Failure) (next : Edit α)
    (unfit : fine = false) :
    (check fine failure >>= fun _ => next).apply s = (.error failure, s) := by
  rw [apply_bind, apply_check, unfit]
  rfl

/-- A request goes on only if the store can be changed. -/
theorem of_checkWritable {next : Edit α} {a : α}
    (done : (checkWritable >>= fun _ => next).apply s = (.ok a, s')) :
    s.readOnly = false ∧ next.apply s = (.ok a, s') := by
  rw [apply_bind, apply_checkWritable] at done
  cases readOnly : s.readOnly with
  | true =>
    rw [readOnly] at done
    cases done
  | false =>
    rw [readOnly] at done
    exact ⟨rfl, done⟩

/-- A request goes on only if a check succeeds. -/
theorem of_check {fine : Bool} {failure : Failure} {next : Edit α} {a : α}
    (done : (check fine failure >>= fun _ => next).apply s = (.ok a, s')) :
    fine ∧ next.apply s = (.ok a, s') := by
  rw [apply_bind, apply_check] at done
  cases fine with
  | true => exact ⟨rfl, done⟩
  | false => cases done

/-- Asking for the folder above a path only looks. -/
theorem snd_apply_checkParent (path : String) (s : Store) :
    ((checkParent path).apply s).2 = s := by
  rw [checkParent]
  split
  · rfl
  · rw [apply_bind, apply_get]
    dsimp only
    split
    · rfl
    · rw [apply_check]

/-- An object whose folder is there may be put. -/
theorem apply_checkParent_bind (next : Edit α)
    (fits : ∀ folder, Path.parent? path = some folder →
      ∃ o, s.get? folder = some o ∧ o.entry.isFolder) :
    (checkParent path >>= fun _ => next).apply s = next.apply s := by
  rw [apply_bind, checkParent]
  cases parent : Path.parent? path with
  | none => rfl
  | some folder =>
    obtain ⟨o, found, folderly⟩ := fits folder parent
    dsimp only
    rw [apply_get_bind, found, apply_check, if_pos folderly]

/-- A request goes on only if the folder above a path is there. -/
theorem of_checkParent {next : Edit α} {a : α}
    (done : (checkParent path >>= fun _ => next).apply s = (.ok a, s')) :
    (∀ folder, Path.parent? path = some folder →
      ∃ o, s.get? folder = some o ∧ o.entry.isFolder) ∧ next.apply s = (.ok a, s') := by
  obtain ⟨_, between, checked, later⟩ := apply_bind_eq_ok_iff.mp done
  obtain rfl : between = s := by
    have looks := snd_apply_checkParent path s
    rwa [checked] at looks
  refine ⟨fun folder parent => ?_, later⟩
  rw [checkParent, parent] at checked
  dsimp only at checked
  rw [apply_bind, apply_get] at checked
  dsimp only at checked
  split at checked
  · cases checked
  · next o found =>
    refine ⟨o, found, ?_⟩
    rw [apply_check] at checked
    split at checked
    · next folderly => exact folderly
    · cases checked

/-! ### Edits that fail -/

/-- Whether an edit that fails leaves a store as it was. -/
def Harmless (e : Edit α) (s : Store) : Prop :=
  ∀ failure s', e.apply s = (.error failure, s') → s' = s

/-- What a harmless edit does is told by what it comes to. -/
theorem Harmless.apply_eq (harmless : e.Harmless s) :
    e.apply s = match e.result s with
      | .error failure => (.error failure, s)
      | .ok (a, s) => (.ok a, s) := by
  rw [result]
  cases answered : e.apply s with
  | mk answer after =>
    cases answer with
    | error failure => rw [harmless failure after answered]
    | ok a => rfl

/-- A harmless edit that fails leaves the store as it was. -/
theorem Harmless.snd_apply (harmless : e.Harmless s) (fails : ¬ (e.apply s).1.isOk) :
    (e.apply s).2 = s := by
  cases answered : e.apply s with
  | mk answer after =>
    rw [answered] at fails
    cases answer with
    | error failure => exact harmless failure after answered
    | ok a => exact absurd rfl fails

/-- An edit that only looks is harmless. -/
theorem harmless_of_looks (looks : (e.apply s).2 = s) : e.Harmless s := by
  intro failure s' failed
  rw [failed] at looks
  exact looks

/-- An edit that cannot fail is harmless. -/
theorem harmless_of_isOk (succeeds : (e.apply s).1.isOk) : e.Harmless s := by
  intro failure s' failed
  rw [failed] at succeeds
  cases succeeds

/-- Looking first keeps an edit harmless. -/
theorem Harmless.afterLook (looks : (e.apply s).2 = s)
    (next : ∀ a, e.apply s = (.ok a, s) → (f a).Harmless s) : (e >>= f).Harmless s := by
  intro failure s' failed
  rw [apply_bind] at failed
  cases answered : e.apply s with
  | mk answer between =>
    rw [answered] at failed looks
    dsimp only at looks
    subst looks
    cases answer with
    | error _ =>
      cases failed
      rfl
    | ok a => exact next a answered failure s' failed

/-- A check does no harm, whatever follows. -/
theorem harmless_check_bind {fine : Bool} {failure : Failure} {next : Edit α}
    (later : fine → next.Harmless s) : (check fine failure >>= fun _ => next).Harmless s := by
  refine .afterLook (by rw [apply_check]) fun _ checked => later ?_
  rw [apply_check] at checked
  cases fine with
  | true => rfl
  | false => cases checked

theorem harmless_checkWritable_bind {next : Edit α} (later : next.Harmless s) :
    (checkWritable >>= fun _ => next).Harmless s :=
  .afterLook (by rw [apply_checkWritable]) fun _ _ => later

theorem harmless_checkParent_bind {next : Edit α} (later : next.Harmless s) :
    (checkParent path >>= fun _ => next).Harmless s :=
  .afterLook (snd_apply_checkParent path s) fun _ _ => later

/-- Looking at the store does no harm. -/
theorem harmless_get_bind {f : Store → Edit α} (later : (f s).Harmless s) :
    (get >>= f : Edit α).Harmless s := by
  refine .afterLook rfl fun a answered => ?_
  cases answered
  exact later

/-- What cannot fail is harmless. -/
theorem harmless_modifyGet (change : Store → α × Store) :
    (modifyGet change : Edit α).Harmless s :=
  harmless_of_isOk rfl

/-! ### The requests of a client -/

theorem harmless_storeFile (path : String) (content : Bytes) :
    (storeFile path content).Harmless s := by
  refine harmless_checkParent_bind (harmless_get_bind ?_)
  cases s.get? path with
  | none => exact harmless_modifyGet _
  | some o => exact harmless_check_bind fun _ => harmless_modifyGet _

/-- A write is refused before it changes anything. -/
theorem harmless_write (path : String) (content : Bytes) : (write path content).Harmless s :=
  harmless_checkWritable_bind (harmless_storeFile _ content)

theorem harmless_append (path : String) (content : Bytes) : (append path content).Harmless s := by
  refine harmless_checkWritable_bind (harmless_get_bind ?_)
  cases s.get? (Path.normalize path) with
  | none => exact harmless_storeFile _ content
  | some o => exact harmless_check_bind fun _ => harmless_storeFile _ _

/-- All checks come before the first folder is made. -/
theorem harmless_makeFolder (path : String) (parents : Bool) :
    (makeFolder path parents).Harmless s := by
  refine harmless_checkWritable_bind (harmless_get_bind ?_)
  cases s.get? (Path.normalize path) with
  | some o => exact harmless_check_bind fun _ => harmless_of_looks rfl
  | none =>
    cases parents with
    | true => exact harmless_of_isOk rfl
    | false => exact harmless_checkParent_bind (harmless_modifyGet _)

/-- A removal is refused before anything is taken out. -/
theorem harmless_remove (path : String) (recursive : Bool) : (remove path recursive).Harmless s :=
  harmless_checkWritable_bind <| harmless_check_bind fun _ => harmless_get_bind <|
    harmless_check_bind fun _ => harmless_check_bind fun _ => harmless_of_isOk rfl

end Edit

/-- The unit that a removal ends with is dropped. -/
theorem remove_of_result {recursive : Bool} {u : Unit}
    (done : (Edit.remove path recursive).result s = .ok (u, s')) :
    s.remove path recursive = .ok s' := by
  rw [remove, done]
  rfl

/-! ### Moving -/

/-- Whatever was taken out before, the object that is moved is met, and then its entry is kept. -/
theorem isSome_foldl_moveOne (time : Nat) (source target : String) (paths : List String)
    (moved : Option Entry × Store)
    (comes : moved.1.isSome ∨ source ∈ paths ∧ (moved.2.get? source).isSome) :
    (paths.foldl (moveOne time source target) moved).1.isSome := by
  induction paths generalizing moved with
  | nil => exact comes.resolve_right fun later => List.not_mem_nil later.1
  | cons path rest ih =>
    rw [List.foldl_cons]
    refine ih _ ?_
    rw [moveOne]
    cases found : moved.2.get? path with
    | none =>
      refine comes.imp_right fun later => ⟨?_, later.2⟩
      refine (List.mem_cons.mp later.1).resolve_left ?_
      rintro rfl
      rw [found] at later
      cases later.2
    | some o =>
      dsimp only
      split
      · exact Or.inl rfl
      · next aside =>
        refine comes.imp_right fun later => ⟨?_, ?_⟩
        · exact (List.mem_cons.mp later.1).resolve_left (Ne.symm aside)
        · rw [get?, Std.TreeMap.getElem?_insert]
          split
          · rfl
          · rw [Std.TreeMap.getElem?_erase, if_neg]
            · exact later.2
            · rwa [Std.LawfulEqCmp.compare_eq_iff_eq]

/-- An object that is there is met when everything within it is moved. -/
theorem isSome_moveAll (target : String) (here : s.objects.contains source) :
    (s.moveAll source target).1.isSome := by
  refine isSome_foldl_moveOne _ source target _ _ (Or.inr ⟨?_, ?_⟩)
  · rw [List.mem_filter]
    refine ⟨Std.TreeMap.mem_keys.mpr here, ?_⟩
    simp [Path.isWithin]
  · rw [Std.TreeMap.contains_eq_isSome_getElem?] at here
    exact here

/-- The only exit behind a change is one that is never taken: the object that is moved is there. -/
theorem Edit.harmless_rename (source target : String) : (rename source target).Harmless s := by
  refine harmless_checkWritable_bind <| harmless_get_bind <| harmless_check_bind fun here =>
    harmless_check_bind fun _ => harmless_check_bind fun _ => harmless_checkParent_bind ?_
  refine harmless_of_isOk ?_
  have met := isSome_moveAll (Path.normalize target) here
  obtain ⟨e, told⟩ := Option.isSome_iff_exists.mp met
  rw [apply_bind, apply_modifyGet]
  dsimp only
  rw [told]
  rfl

end StoreShell.Store
