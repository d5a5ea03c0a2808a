import StoreShell.Proofs.CacheLookups
import StoreShell.Script

/-! # Folders that are marked

A folder is marked in a cache while its listing is claimed. Of all that happens to a world only three
things change which folders are marked: a claim, a listing that begins in the background, and giving
a claim back. Everything else keeps the marks, and also the listings in the background and the
current cache.
-/

namespace StoreShell

open StoreShell.Path

/-- Whether a request leaves all marks as they are. -/
def Request.keepsMarks : Request → Bool
  | .prefetch _ | .finishFetch .. => false
  | _ => true

namespace World

variable {w w' v : World} {id cache : Nat} {folder : String}

/-- Whether a folder is marked in a numbered cache: somebody has claimed its listing. -/
def isMarked (w : World) (cache : Nat) (folder : String) : Bool :=
  ((w.cacheAt cache).flight? folder).isSome

/-- Whether a world has the current cache, the background and the number of caches of another. -/
structure Resembles (w w' : World) : Prop where
  cache : w'.cache = w.cache
  length : w'.caches.length = w.caches.length
  background : w'.background = w.background

/-- Whether a world resembles another one and has the same folders marked. -/
structure KeepsMarks (w w' : World) : Prop extends w.Resembles w' where
  marks : ∀ id folder, w'.isMarked id folder = w.isMarked id folder

theorem KeepsMarks.refl (w : World) : w.KeepsMarks w := ⟨⟨rfl, rfl, rfl⟩, fun _ _ => rfl⟩

theorem KeepsMarks.trans (first : w.KeepsMarks w') (next : w'.KeepsMarks v) : w.KeepsMarks v where
  cache := next.cache.trans first.cache
  length := next.length.trans first.length
  background := next.background.trans first.background
  marks id folder := (next.marks id folder).trans (first.marks id folder)

/-- A cache that is changed decides which of its folders are marked, and no others. -/
theorem isMarked_setCache (w : World) (id : Nat) (c : Cache) (cache : Nat) (folder : String) :
    (w.setCache id c).isMarked cache folder =
      if id = cache ∧ id < w.caches.length then (c.flight? folder).isSome
      else w.isMarked cache folder := by
  simp only [isMarked, cacheAt, setCache, List.getElem?_set]
  by_cases same : id = cache
  · subst same
    by_cases inside : id < w.caches.length
    · simp [inside]
    · simp [inside]
  · simp [same]

theorem resembles_setCache (w : World) (id : Nat) (c : Cache) : w.Resembles (w.setCache id c) :=
  ⟨rfl, List.length_set, rfl⟩

/-- Putting a cache in the place of one with the same marks keeps the marks. -/
theorem keepsMarks_setCache {c : Cache}
    (same : ∀ folder, (c.flight? folder).isSome = ((w.cacheAt id).flight? folder).isSome) :
    w.KeepsMarks (w.setCache id c) where
  toResembles := w.resembles_setCache id c
  marks cache folder := by
    rw [isMarked_setCache]
    split
    · next here => rw [same, here.1, isMarked]
    · rfl

theorem keepsMarks_setRemote (w : World) (id : Nat) (r : Remote) : w.KeepsMarks (w.setRemote id r) :=
  ⟨⟨rfl, rfl, rfl⟩, fun _ _ => rfl⟩

/-! ### Requests -/

theorem keepsMarks_onRemote {α : Type} (w : World) (id : Nat) (f : Remote → α × Remote) :
    w.KeepsMarks (w.onRemote id f).2 :=
  w.keepsMarks_setRemote id _

/-- A request that has nothing to do with claims keeps all marks. -/
theorem keepsMarks_answer (w : World) {r : Request} (keeps : r.keepsMarks) :
    w.KeepsMarks (w.answer r).2 := by
  cases r with
  | prefetch | finishFetch => cases keeps
  | desk | known | matching => exact .refl w
  | enter | cancel => exact ⟨⟨rfl, rfl, rfl⟩, fun _ _ => rfl⟩
  | note id path e => exact keepsMarks_setCache fun folder => Cache.isSome_flight?_add _ path folder e
  | forget id path => exact keepsMarks_setCache (Cache.isSome_flight?_remove _ path)
  | forgetStale id path => exact keepsMarks_setCache (Cache.isSome_flight?_forgetStale _ path)
  | stat | read | upload | makeFolder | remove | rename => exact w.keepsMarks_onRemote _ _

/-- Giving a claim back takes the mark off the folder. -/
theorem isMarked_finishFetch (w : World) {id : Nat} (inside : id < w.caches.length)
    {folder : String} (normal : IsNormal folder) (entries : Option (List Entry)) (cache : Nat)
    (other : String) :
    (w.setCache id ((w.cacheAt id).finishFetch folder entries).2).isMarked cache other =
      if id = cache ∧ folder = other then false else w.isMarked cache other := by
  rw [isMarked_setCache, Cache.flight?_finishFetch, normalize_of_isNormal normal]
  by_cases here : id = cache
  · subst here
    by_cases at_ : folder = other
    · simp [inside, at_]
    · simp [inside, at_, isMarked]
  · simp [here]

/-- A claim is given back in the numbered cache and nowhere else. -/
theorem answer_finishFetch (w : World) (id : Nat) (folder : String)
    (entries : Option (List Entry)) : (w.answer (.finishFetch id folder entries)).2 =
      w.setCache id ((w.cacheAt id).finishFetch folder entries).2 := by
  simp only [answer, onCache]
  split <;> simp_all

/-- A folder that is claimed was not marked and is marked then. -/
theorem isMarked_beginFetch (w : World) {id : Nat} (inside : id < w.caches.length) {folder : String}
    (normal : IsNormal folder) (claimed : ((w.cacheAt id).beginFetch folder).1 = true) :
    w.isMarked id folder = false ∧ ∀ cache other,
      (w.setCache id ((w.cacheAt id).beginFetch folder).2).isMarked cache other =
        if id = cache ∧ folder = other then true else w.isMarked cache other := by
  constructor
  · have free := (Cache.free_of_claimed _ folder claimed).2
    rw [normalize_of_isNormal normal] at free
    rw [isMarked, free]
    rfl
  · intro cache other
    rw [isMarked_setCache, (Cache.beginFetch_of_claimed _ _ claimed).2,
      normalize_of_isNormal normal]
    by_cases here : id = cache
    · subst here
      by_cases at_ : folder = other
      · simp [inside, at_]
      · simp [inside, at_, isMarked]
    · simp [here]

/-! ### Claims and listings -/

/-- A script that gets the children of a folder without listing it changes nothing. -/
theorem eq_of_claim? {children : List Entry}
    (known : w.claim? cache folder = some (some children, w')) : w' = w := by
  rw [claim?] at known
  split at known
  · cases known
    rfl
  · split at known <;> cases known

/-- A script that may list a folder has claimed it. -/
theorem beginFetch_of_claim? (claimed : w.claim? cache folder = some (none, w')) :
    ((w.cacheAt cache).beginFetch folder).1 = true ∧
      w' = w.setCache cache ((w.cacheAt cache).beginFetch folder).2 := by
  rw [claim?] at claimed
  split at claimed
  · cases claimed
  · split at claimed
    · next c began =>
      cases claimed
      rw [began]
      exact ⟨rfl, rfl⟩
    · cases claimed

/-- A script that has to wait for a folder waits because somebody has claimed its listing. -/
theorem isMarked_of_claim?_eq_none (normal : IsNormal folder)
    (waits : w.claim? cache folder = none) : w.isMarked cache folder := by
  rw [claim?] at waits
  split at waits
  · cases waits
  · next unknown =>
    split at waits
    · cases waits
    · next refused =>
      have refused : ((w.cacheAt cache).beginFetch folder).1 = false := by rw [refused]
      rcases (Cache.beginFetch_eq_false_iff _ folder).mp refused with loaded | marked
      · rw [Cache.children?, Option.map_eq_none_iff] at unknown
        rw [unknown] at loaded
        cases loaded
      · exact normalize_of_isNormal normal ▸ marked

private theorem isSome_flight?_applyChurns (folder : String) (c : Cache) (churns : List Churn)
    (other : String) :
    ((applyChurns folder c churns).1.flight? other).isSome = (c.flight? other).isSome := by
  induction churns generalizing c with
  | nil => rfl
  | cons churn rest ih =>
    refine (ih (applyChurn folder c churn).1).trans ?_
    unfold applyChurn
    split
    · cases churn.action with
      | add => rw [Cache.isSome_flight?_add]
      | invalidate => rw [Cache.isSome_flight?_invalidate]
      | clear => rw [Cache.isSome_flight?_clear]
    · rfl

/-- What goes with a listing may make listings stale, and sets no mark and takes none away. -/
theorem keepsMarks_arrive (w : World) (l : Listing) : w.KeepsMarks (w.arrive l) :=
  (keepsMarks_setCache (isSome_flight?_applyChurns _ _ _)).trans (keepsMarks_setRemote _ _ _)

private theorem keepsMarks_advanceAnswered (w : World) (l : Listing)
    (answer : Except Failure (List Entry)) (due : Nat) :
    w.KeepsMarks (w.advanceAnswered l answer due).2 := by
  rw [advanceAnswered]
  split
  · exact w.keepsMarks_arrive l
  · exact .refl w

private theorem keepsMarks_advanceUnderWay (w : World) (l : Listing) (due : Nat) :
    w.KeepsMarks (w.advanceUnderWay l due).2 := by
  rw [advanceUnderWay]
  split
  · exact w.keepsMarks_advanceAnswered _ _ _
  · exact .refl w

/-- A listing goes on without changing the marks, and is of the same folder still. -/
theorem keepsMarks_advance (w : World) (l : Listing) : w.KeepsMarks (w.advance l).2 := by
  rw [advance]
  split
  · have called : w.KeepsMarks (w.request l).2 := by
      rw [request]
      split <;> exact w.keepsMarks_setRemote _ _
    split
    · next failure v requested =>
      rw [requested] at called
      exact called
    · next v requested =>
      rw [requested] at called
      exact called.trans (keepsMarks_advanceUnderWay _ _ _)
  · exact w.keepsMarks_advanceUnderWay _ _
  · exact w.keepsMarks_advanceAnswered _ _ _

private theorem folder_of_advanceAnswered {l l' : Listing} {answer : Except Failure (List Entry)}
    {due : Nat} (goesOn : w.advanceAnswered l answer due = (.inl l', w')) : l'.folder = l.folder := by
  rw [advanceAnswered] at goesOn
  split at goesOn
  · cases goesOn
  · cases goesOn
    rfl

private theorem folder_of_advanceUnderWay {l l' : Listing} {due : Nat}
    (goesOn : w.advanceUnderWay l due = (.inl l', w')) : l'.folder = l.folder := by
  rw [advanceUnderWay] at goesOn
  split at goesOn
  · exact folder_of_advanceAnswered goesOn
  · cases goesOn
    rfl

/-- A listing that goes on is one of the same folder. -/
theorem folder_of_advance {l l' : Listing} (goesOn : w.advance l = (.inl l', w')) :
    l'.folder = l.folder := by
  rw [advance] at goesOn
  split at goesOn
  · split at goesOn
    · cases goesOn
    · exact folder_of_advanceUnderWay goesOn
  · exact folder_of_advanceUnderWay goesOn
  · exact folder_of_advanceAnswered goesOn

end World

end StoreShell
