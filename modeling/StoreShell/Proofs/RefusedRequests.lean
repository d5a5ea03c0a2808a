import StoreShell.Proofs.StoreTrees

/-! # Requests that are refused

`Request.edit` is what a client may ask for as the work that a store does in place. All of it is
harmless: a request that is refused leaves the objects with their contents and times, the next number
and everything else as they were. So the store that a request leaves is the one that `Request.apply`
tells of, and of many requests only those count that are not refused.
-/

namespace StoreShell.Store

variable {s : Store}

namespace Edit

variable {α : Type} {e : Edit α}

/-- Forgetting a result does not change what an edit does to the store. -/
theorem apply_forgetting (e : Edit α) (s : Store) :
    (do let _ ← e : Edit Unit).apply s = ((e.apply s).1.map fun _ => (), (e.apply s).2) := by
  rw [apply_bind]
  rcases e.apply s with ⟨_ | _, _⟩
  · rfl
  · rfl

theorem result_forgetting (e : Edit α) (s : Store) :
    (do let _ ← e : Edit Unit).result s = (e.result s).map fun done => ((), done.2) := by
  rw [result, result, apply_forgetting]
  rcases e.apply s with ⟨_ | _, _⟩
  · rfl
  · rfl

/-- Nor does it make a failure harmful. -/
theorem Harmless.forgetting (harmless : e.Harmless s) : (do let _ ← e : Edit Unit).Harmless s := by
  intro failure s' failed
  rw [apply_forgetting, Prod.mk.injEq] at failed
  cases answered : e.apply s with
  | mk answer between =>
    rw [answered] at failed
    obtain ⟨failed, rfl⟩ := failed
    cases answer with
    | error failure => exact harmless failure between answered
    | ok a => cases failed

end Edit

namespace Request

/-- What a store does for a request, of which only counts whether it succeeds. -/
def edit : Request → Edit Unit
  | write path content => do let _ ← Edit.write path content
  | append path content => do let _ ← Edit.append path content
  | makeFolder path parents => do let _ ← Edit.makeFolder path parents
  | remove path recursive => Edit.remove path recursive
  | rename source target => do let _ ← Edit.rename source target

/-- Whatever is asked of a store, a failure leaves it as it was. One case for each request. -/
theorem harmless_edit (r : Request) (s : Store) : r.edit.Harmless s := by
  cases r with
  | write path content => exact (Edit.harmless_write path content).forgetting
  | append path content => exact (Edit.harmless_append path content).forgetting
  | makeFolder path parents => exact (Edit.harmless_makeFolder path parents).forgetting
  | remove path recursive => exact Edit.harmless_remove path recursive
  | rename source target => exact (Edit.harmless_rename source target).forgetting

private theorem map_snd_forgetting {α : Type} (answer : Except Failure (α × Store)) :
    (answer.map fun done => ((), done.2)).map Prod.snd = answer.map Prod.snd := by
  cases answer with
  | error _ => rfl
  | ok _ => rfl

/-- A request is answered with what its edit comes to. -/
theorem answer_eq (r : Request) (s : Store) : r.answer s = (r.edit.result s).map Prod.snd := by
  cases r with
  | write path content =>
    rw [edit, Edit.result_forgetting, map_snd_forgetting]
    rfl
  | append path content =>
    rw [edit, Edit.result_forgetting, map_snd_forgetting]
    rfl
  | makeFolder path parents =>
    rw [edit, Edit.result_forgetting, map_snd_forgetting]
    rfl
  | remove path recursive => rfl
  | rename source target =>
    rw [edit, Edit.result_forgetting, map_snd_forgetting]
    rfl

/-- What a request leaves in place is what is told of it. -/
theorem snd_apply_edit (r : Request) (s : Store) : (r.edit.apply s).2 = r.apply s := by
  rw [apply, answer_eq, (r.harmless_edit s).apply_eq]
  cases r.edit.result s with
  | error _ => rfl
  | ok _ => rfl

/-- Whatever a store is asked to change, if it refuses it is as it was: its objects with what is told
of them, their contents and their times, and the number that the next new object gets. -/
theorem unchanged_of_refused (s : Store) (r : Request) (refused : ¬ (r.edit.apply s).1.isOk) :
    (r.edit.apply s).2 = s :=
  (r.harmless_edit s).snd_apply refused

/-- A folder with a file is not moved into itself. -/
theorem unchanged_of_move_into_itself :
    (¬ ((rename "/a" "/a/b").edit.apply (empty.insertFile "/a/f" [1])).1.isOk) ∧
      ((rename "/a" "/a/b").edit.apply (empty.insertFile "/a/f" [1])).2 =
        empty.insertFile "/a/f" [1] :=
  ⟨by decide +kernel, unchanged_of_refused _ _ (by decide +kernel)⟩

end Request

/-- The requests that a store does not refuse, of those that it gets one after the other. -/
def heeded (s : Store) : List Request → List Request
  | [] => []
  | r :: rest =>
    if (r.edit.apply s).1.isOk then r :: heeded (r.apply s) rest else heeded s rest

/-- Requests that are refused may as well not be made. -/
theorem after_heeded (s : Store) (requests : List Request) :
    s.after (s.heeded requests) = s.after requests := by
  induction requests generalizing s with
  | nil => rfl
  | cons r rest ih =>
    rw [heeded]
    split
    · exact ih (r.apply s)
    · next refused =>
      have same : r.apply s = s := by
        rw [← r.snd_apply_edit, (r.harmless_edit s).snd_apply refused]
      rw [ih s]
      exact congrArg (Store.after · rest) same.symm

end StoreShell.Store
