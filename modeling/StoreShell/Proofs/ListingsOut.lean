import StoreShell.Proofs.LoaderTurns

/-! # At most one listing of a folder is out

Whoever lists a folder holds the claim on it, and a claim is marked in the cache. So the claims on a
folder are as many as its marks (`World.Balanced`): there is at most one, and at most one call to the
service that lists the folder waits for its answer.
-/

namespace StoreShell

open StoreShell.Path

def ListingStage.isCalled : ListingStage → Bool
  | .asked => false
  | .underWay _ | .answered .. => true

/-- Whether a listing of a folder is a call that waits for its answer. -/
def Listing.isOut (l : Listing) (folder : String) : Bool := l.folder = folder && l.stage.isCalled

/-- Whether a loader waits for the answer to a call that lists a folder. -/
def Loader.isOut (folder : String) : Loader → Bool
  | .children _ (.list l _) => l.isOut folder
  | .preload (.list l _) => l.isOut folder
  | _ => false

def Pool.outstanding (s : Pool) (folder : String) : Nat :=
  s.world.background.countP (·.listing.isOut folder) + s.loaders.countP (·.isOut folder)

/-- Whether a claim is one on a folder. -/
def Claim.isOn (folder : String) : Claim → Bool
  | .free => false
  | .lists other _ | .gives other _ => other = folder

/-- Whether the claims that are held on the folders of a cache are as many as the marks on them. -/
structure World.Balanced (cache : Nat) (w : World) (claims : List Claim) : Prop where
  cacheKept : cache < w.caches.length
  normal : ∀ c ∈ claims, ∀ {folder}, c.isOn folder → IsNormal folder
  balance : ∀ folder, claims.countP (·.isOn folder) = (w.isMarked cache folder).toNat

namespace World.Balanced

variable {cache remote : Nat} {w w' : World} {c c' : Claim} {claims : List Claim} {folder : String}

/-- What leaves the marks as they are keeps the balance. -/
theorem keepsMarks (balanced : w.Balanced cache claims) (keeps : w.KeepsMarks w') :
    w'.Balanced cache claims where
  cacheKept := keeps.length ▸ balanced.cacheKept
  normal := balanced.normal
  balance folder := by
    rw [keeps.marks]
    exact balanced.balance folder

private theorem replace (balanced : w.Balanced cache (c :: claims)) (keeps : w.KeepsMarks w')
    (same : ∀ folder, c'.isOn folder = c.isOn folder) : w'.Balanced cache (c' :: claims) where
  cacheKept := keeps.length ▸ balanced.cacheKept
  normal := by
    obtain ⟨first, rest⟩ := List.forall_mem_cons.mp balanced.normal
    exact List.forall_mem_cons.mpr ⟨fun on => first (same _ ▸ on), rest⟩
  balance folder := by
    rw [keeps.marks, ← balanced.balance folder, List.countP_cons, List.countP_cons, same]

/-- Whoever has claimed a folder has it marked. -/
theorem isMarked (balanced : w.Balanced cache claims) {c : Claim} (member : c ∈ claims)
    (on : c.isOn folder) : w.isMarked cache folder := by
  have some : 0 < claims.countP (·.isOn folder) := List.countP_pos_iff.mpr ⟨c, member, on⟩
  rw [balanced.balance] at some
  cases marked : w.isMarked cache folder with
  | true => rfl
  | false =>
    rw [marked] at some
    exact absurd some (Nat.lt_irrefl 0)

/-- How a listing goes on keeps the balance, with the claim that it has then. -/
theorem handles (balanced : w.Balanced cache (c :: claims)) (handles : w.Handles cache remote c w' c') :
    w'.Balanced cache (c' :: claims) := by
  have advanced : ∀ {l : Listing} {progress}, w.advance l = (progress, w') → w.KeepsMarks w' := by
    intro l progress advanced
    have keeps := w.keepsMarks_advance l
    rwa [advanced] at keeps
  cases handles with
  | @begin folder normal begun =>
    obtain ⟨free, marked⟩ := w.isMarked_beginFetch balanced.cacheKept normal begun
    refine ⟨?_, List.forall_mem_cons.mpr ⟨fun {other} on => ?_, ?_⟩, fun other => ?_⟩
    · rw [setCache, List.length_set]
      exact balanced.cacheKept
    · obtain rfl : folder = other := of_decide_eq_true on
      exact normal
    · exact (List.forall_mem_cons.mp balanced.normal).2
    · have before := balanced.balance other
      rw [List.countP_cons_of_neg (by simp [Claim.isOn])] at before
      rw [marked, List.countP_cons, before]
      by_cases here : folder = other
      · subst here
        simp [Claim.isOn, free]
      · simp [Claim.isOn, here]
  | goesOn here => exact balanced.replace (advanced here) fun _ => rfl
  | answered here => exact balanced.replace (advanced here) fun _ => rfl
  | @finish folder answer =>
    have normal : IsNormal folder :=
      balanced.normal _ (List.mem_cons_self ..) (decide_eq_true rfl)
    have marked := balanced.isMarked (List.mem_cons_self ..) (decide_eq_true (rfl : folder = folder))
    refine ⟨?_, List.forall_mem_cons.mpr ⟨(fun on => by cases on), ?_⟩, fun other => ?_⟩
    · rw [setCache, List.length_set]
      exact balanced.cacheKept
    · exact (List.forall_mem_cons.mp balanced.normal).2
    · have before := balanced.balance other
      rw [w.isMarked_finishFetch balanced.cacheKept normal,
        List.countP_cons_of_neg (by simp [Claim.isOn])]
      by_cases here : folder = other
      · subst here
        rw [marked, List.countP_cons_of_pos (by simp [Claim.isOn])] at before
        simpa using before
      · rw [List.countP_cons_of_neg (by simpa [Claim.isOn] using here)] at before
        simpa [here] using before

/-- Whoever has no claim does not count. -/
theorem free_iff : w.Balanced cache (.free :: claims) ↔ w.Balanced cache claims := by
  have count : ∀ folder, (Claim.free :: claims).countP (·.isOn folder) =
      claims.countP (·.isOn folder) :=
    fun folder => List.countP_cons_of_neg (by simp [Claim.isOn])
  constructor
  · rintro ⟨kept, normal, balance⟩
    exact ⟨kept, (List.forall_mem_cons.mp normal).2, fun folder => count folder ▸ balance folder⟩
  · rintro ⟨kept, normal, balance⟩
    refine ⟨kept, List.forall_mem_cons.mpr ⟨(fun on => by cases on), normal⟩, fun folder => ?_⟩
    rw [count, balance]

theorem perm {others : List Claim} (balanced : w.Balanced cache claims) (perm : claims.Perm others) :
    w.Balanced cache others where
  cacheKept := balanced.cacheKept
  normal c member := balanced.normal c (perm.mem_iff.mpr member)
  balance folder := by rw [← perm.countP_eq, balanced.balance]

theorem elsewhere (balanced : w.Balanced cache claims) (caches : w'.caches = w.caches) :
    w'.Balanced cache claims where
  cacheKept := caches ▸ balanced.cacheKept
  normal := balanced.normal
  balance folder := by
    rw [balanced.balance, World.isMarked, World.isMarked, cacheAt, cacheAt, caches]

/-- Changes from outside neither begin a listing nor end one. -/
theorem change (balanced : w.Balanced cache claims) {o : Cache.Operation} (isLocal : o.isLocal) :
    (w.setCache cache (o.apply (w.cacheAt cache))).Balanced cache claims :=
  balanced.keepsMarks (keepsMarks_setCache (Cache.isSome_flight?_apply isLocal))

end World.Balanced

namespace Pool

variable {cache remote : Nat} {known : String → Option (List Entry) → Prop}
  {found : String → Except Failure (List Entry) → Prop} {s : Pool} {folder : String}

/-- Nothing that happens to a pool upsets the balance. -/
theorem stable_balanced (cache remote : Nat) :
    Stable cache remote (fun _ _ => True) (fun _ _ => True) (fun _ => True) (fun _ => True)
      (World.Balanced cache) where
  perm := World.Balanced.perm
  free := World.Balanced.free_iff
  elsewhere balanced caches _ := balanced.elsewhere caches
  handles balanced handles _ := balanced.handles handles
  tells _ _ _ := trivial
  finds _ _ _ := trivial
  answers _ := trivial
  change balanced _ isLocal := balanced.change isLocal
  disturb balanced := balanced.keepsMarks (World.keepsMarks_setRemote _ _ _)
  replace balanced _ := balanced.keepsMarks (World.keepsMarks_setRemote _ _ _)

/-- A loader that waits for a listing of a folder has claimed it. -/
theorem isOn_of_isOut {c : Claim} {l : Loader} (loads : l.Loads cache remote known found c)
    (out : l.isOut folder) : c.isOn folder := by
  have listing : ∀ {α : Type} {ends : α → Prop} {l next},
      Script.Loads cache remote known found ends c (.list l next) → l.isOut folder →
        c.isOn folder := by
    intro α ends l next loads out
    cases loads with
    | list => exact (Bool.and_eq_true_iff.mp out).1
  cases l with
  | children _ s =>
    cases s with
    | list => exact listing loads out
    | _ => cases out
  | preload s =>
    cases s with
    | list => exact listing loads out
    | _ => cases out

/-- In a balanced pool at most one call that lists a folder waits for its answer. -/
theorem Keeps.outstanding_le {holds : World → List Claim → Prop}
    (keeps : s.Keeps cache remote known found holds)
    (balanced : ∀ {w claims}, holds w claims → w.Balanced cache claims) :
    s.outstanding folder ≤ 1 := by
  obtain ⟨held, same, each, this⟩ := keeps.loaders
  have background : s.world.background.countP (·.listing.isOut folder) ≤
      (s.world.background.map Prefetch.claim).countP (·.isOn folder) := by
    rw [List.countP_map]
    exact List.countP_mono_left fun p _ out => (Bool.and_eq_true_iff.mp out).1
  have loaders : s.loaders.countP (·.isOut folder) ≤ (held.map Prod.fst).countP (·.isOn folder) := by
    rw [← same, List.countP_map, List.countP_map]
    exact List.countP_mono_left fun h member out => isOn_of_isOut (each h member) out
  have balance := (balanced this).balance folder
  have one := Bool.toNat_le (s.world.isMarked cache folder)
  rw [List.countP_append] at balance
  rw [outstanding]
  omega

end Pool

end StoreShell
