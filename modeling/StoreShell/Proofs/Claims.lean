import StoreShell.Children
import StoreShell.Command.Operands
import StoreShell.Proofs.Path

/-! # Scripts and the claims that they hold

A script that claims the listing of a folder holds the claim from then on until it gives it back.
`Orderly` is the discipline of scripts about claims: a claim that was got is followed by the listing
of its folder, and the listing by giving the claim back, however it ends; nothing else is done in
between. The loading of folders is orderly, be it of one or of many.
-/

namespace StoreShell

open StoreShell.Path

variable {α β : Type}

/-- Whether a request has to do with claims: it tells the number of a cache or gives a claim back. -/
def Request.bearsOnClaims : Request → Bool
  | .desk | .finishFetch .. => true
  | _ => false

namespace Script

/-- Whether a script holds the claim on a folder: it is going to give it back at once, or after the
listing of the folder that it waits for, however that ends. -/
inductive Holds (cache : Nat) (folder : String) : Script α → Prop where
  | finish {entries next} : Holds cache folder (.ask (.finishFetch cache folder entries) next)
  | list {l next} : l.folder = folder → (∀ answer, Holds cache folder (next answer)) →
      Holds cache folder (.list l next)

/-- Whether a script that holds a claim, or none, never forgets a claim and gives none back that is
not its own. The number bounds those of the caches that it may know of. -/
inductive Orderly : Nat → Option (Nat × String) → Script α → Prop where
  | done {n} {a : α} : Orderly n none (.done a)
  | desk {n next} : (∀ d : Desk, Orderly (max n (d.cache + 1)) none (next d)) →
      Orderly n none (.ask .desk next)
  | ask {n r next} : r.bearsOnClaims = false → (∀ a, Orderly n none (next a)) →
      Orderly n none (.ask r next)
  | claim {n cache folder next} : (∀ children, Orderly n none (next (some children))) →
      Orderly n (some (cache, folder)) (next none) → Orderly n none (.claim cache folder next)
  | list {n cache folder l next} : l.folder = folder →
      (∀ answer, Orderly n (some (cache, folder)) (next answer)) →
      Orderly n (some (cache, folder)) (.list l next)
  | finish {n cache folder entries next} : cache < n → IsNormal folder →
      (∀ a, Orderly n none (next a)) →
      Orderly n (some (cache, folder)) (.ask (.finishFetch cache folder entries) next)
  | write {n dest bytes next} : (∀ a, Orderly n none (next a)) →
      Orderly n none (.write dest bytes next)
  | flush {n dest next} : (∀ a, Orderly n none (next a)) → Orderly n none (.flush dest next)
  | copy {n copying next} : (∀ a, Orderly n none (next a)) → Orderly n none (.copy copying next)
  | collect {n room sofar next} : (∀ a, Orderly n none (next a)) →
      Orderly n none (.collect room sofar next)
  | saved {n which next} : (∀ a, Orderly n none (next a)) → Orderly n none (.saved which next)
  | release {n next} : Orderly n none next → Orderly n none (.release next)
  | hang {n} : Orderly n none .hang

variable {s : Script α} {held : Option (Nat × String)} {n m cache : Nat} {folder : String}

/-- A script that is told of more caches is orderly still. -/
theorem Orderly.mono (orderly : Orderly n held s) (more : n ≤ m) : Orderly m held s := by
  induction orderly generalizing m with
  | done => exact .done
  | hang => exact .hang
  | desk _ ih => exact .desk fun d => ih d (by omega)
  | ask plain _ ih => exact .ask plain fun a => ih a more
  | claim _ _ known claimed => exact .claim (fun children => known children more) (claimed more)
  | list same _ ih => exact .list same fun answer => ih answer more
  | finish inside normal _ ih => exact .finish (by omega) normal fun a => ih a more
  | write _ ih => exact .write fun a => ih a more
  | flush _ ih => exact .flush fun a => ih a more
  | copy _ ih => exact .copy fun a => ih a more
  | collect _ ih => exact .collect fun a => ih a more
  | saved _ ih => exact .saved fun a => ih a more
  | release _ ih => exact .release (ih more)

/-- Whatever follows a script may begin once nothing is claimed any more. -/
theorem Orderly.bind {f : α → Script β} (orderly : Orderly n held s)
    (next : ∀ m a, n ≤ m → Orderly m none (f a)) : Orderly n held (s.bind f) := by
  induction orderly with
  | done => exact next _ _ (Nat.le_refl _)
  | hang => exact .hang
  | desk _ ih => exact .desk fun d => ih d fun m a more => next m a (by omega)
  | ask plain _ ih => exact .ask plain fun a => ih a next
  | claim _ _ known claimed => exact .claim (fun children => known children next) (claimed next)
  | list same _ ih => exact .list same fun answer => ih answer next
  | finish inside normal _ ih => exact .finish inside normal fun a => ih a next
  | write _ ih => exact .write fun a => ih a next
  | flush _ ih => exact .flush fun a => ih a next
  | copy _ ih => exact .copy fun a => ih a next
  | collect _ ih => exact .collect fun a => ih a next
  | saved _ ih => exact .saved fun a => ih a next
  | release _ ih => exact .release (ih next)

/-- An orderly script holds the claim that is told of it. -/
theorem Orderly.holds (orderly : Orderly n (some (cache, folder)) s) : s.Holds cache folder := by
  generalize same : some (cache, folder) = held at orderly
  induction orderly with
  | list at_ _ ih =>
    cases same
    exact .list at_ fun answer => ih answer rfl
  | finish =>
    cases same
    exact .finish
  | _ => cases same

/-- Claims are on folders in normal form, in caches that there are. -/
theorem Orderly.inside (orderly : Orderly n (some (cache, folder)) s) :
    cache < n ∧ IsNormal folder := by
  generalize same : some (cache, folder) = held at orderly
  induction orderly with
  | list _ _ ih => exact ih (.error .cancelled) same
  | finish inside normal =>
    cases same
    exact ⟨inside, normal⟩
  | _ => cases same

/-- An orderly script holds the claim that it is said to hold, and no other. -/
theorem Orderly.holds_iff (orderly : Orderly n held s) :
    s.Holds cache folder ↔ held = some (cache, folder) := by
  constructor
  · intro holds
    induction holds with
    | finish =>
      cases orderly with
      | ask plain _ => cases plain
      | finish => rfl
    | list _ _ ih =>
      cases orderly with
      | list _ rest => exact ih (.error .cancelled) (rest _)
  · intro same
    subst same
    exact orderly.holds

end Script

open Script

variable {n : Nat}

section Tasks

theorem orderly_pure (a : α) : Orderly n none (pure a : Task α) := .done

theorem orderly_throw (failure : Failure) : Orderly n none (throw failure : Task α) := .done

/-- A request that has nothing to do with claims neither needs one nor leaves one. -/
theorem orderly_request {r : Request} (plain : r.bearsOnClaims = false) :
    Orderly n none (request r) :=
  .ask plain fun _ => .done

/-- Orderly work goes on with orderly work, whatever caches there are by then. -/
theorem Script.Orderly.andThen {t : Task α} {f : α → Task β} (first : Orderly n none t)
    (next : ∀ m a, n ≤ m → Orderly m none (f a)) : Orderly n none (t >>= f : Task β) := by
  refine Orderly.bind first fun m result more => ?_
  cases result with
  | error failure => exact .done
  | ok a => exact next m a more

/-- A failure leaves no claim behind, so it can be caught anywhere. -/
theorem Script.Orderly.attempt {t : Task α} (orderly : Orderly n none t) :
    Orderly n none (Task.attempt t) :=
  orderly.bind fun _ _ _ => .done

theorem orderly_ask {r : Request} (plain : r.bearsOnClaims = false) :
    Orderly n none (Task.ask r) :=
  Orderly.bind (orderly_request plain) fun _ _ _ => .done

/-- A task that looks how things stand knows of the current cache. -/
theorem orderly_desk {f : Desk → Task α}
    (next : ∀ m d, n ≤ m → d.cache < m → Orderly m none (f d)) :
    Orderly n none (Task.desk >>= f : Task α) :=
  .desk fun d => next _ d (by omega) (by omega)

theorem orderly_resolve (path : String) : Orderly n none (Task.resolve path) :=
  orderly_desk fun _ _ _ _ => .done

theorem orderly_write (dest : Output) (bytes : Bytes) : Orderly n none (Task.write dest bytes) :=
  .write fun _ => .done

theorem orderly_print (dest : Output) (text : String) : Orderly n none (Task.print dest text) :=
  orderly_write dest _

theorem orderly_forget (path : String) : Orderly n none (Task.forget path) :=
  orderly_desk fun _ _ _ _ => orderly_ask rfl

theorem orderly_stat (path : String) : Orderly n none (Task.stat path) := by
  refine orderly_desk fun _ d _ _ => (orderly_ask rfl).andThen fun _ known _ => ?_
  cases known with
  | some e => exact orderly_pure e
  | none =>
    refine Orderly.andThen (orderly_request rfl) fun _ e _ => ?_
    exact (orderly_ask rfl).andThen fun _ _ _ => orderly_pure e

theorem orderly_statOr (path : String) (reword : Failure → Failure) :
    Orderly n none (Task.statOr path reword) := by
  refine (orderly_stat path).bind fun _ result _ => ?_
  cases result with
  | ok e => exact orderly_pure e
  | error failure => exact orderly_throw _

end Tasks

/-! ### The children of folders -/

section Children

variable {cache remote : Nat} {folder : String}

/-- Listing a folder holds the claim on it, and gives it back before anything else is done. -/
theorem orderly_listOnce (inside : cache < n) (normal : IsNormal folder)
    {whenStale : List Entry → Script (Except Failure (List Entry))}
    (again : ∀ entries, Orderly n none (whenStale entries)) :
    Orderly n none (Task.listOnce cache remote folder whenStale) := by
  apply Orderly.claim
  · exact fun children => .done
  · refine Orderly.list rfl fun answer => ?_
    cases answer with
    | error failure => exact .finish inside normal fun _ => .done
    | ok entries =>
      apply Orderly.finish inside normal
      intro installed
      cases installed with
      | some children => exact .done
      | none => exact again entries

private theorem orderly_ensureChildrenIn (inside : cache < n) (normal : IsNormal folder)
    (again : Nat) : Orderly n none (Task.ensureChildrenIn cache remote folder again) := by
  induction again with
  | zero => exact orderly_listOnce inside normal fun _ => .done
  | succ again ih => exact orderly_listOnce inside normal fun _ => ih

/-- Each attempt to list the folder gives its claim back before the next one. -/
theorem orderly_ensureChildren (inside : cache < n) (remote : Nat) (folder : String) :
    Orderly n none (Task.ensureChildren cache remote folder) :=
  orderly_ensureChildrenIn inside (isNormal_normalize folder) _

private theorem orderly_preloadLevel (inside : cache < n) (remote : Nat) (root : String)
    (folders : List String) : Orderly n none (Task.preloadLevel cache remote root folders) := by
  induction folders with
  | nil => exact orderly_pure _
  | cons folder rest ih =>
    rw [Task.preloadLevel]
    refine (orderly_ensureChildren inside remote folder).attempt.andThen fun m result more => ?_
    cases result with
    | error failure =>
      dsimp only
      split
      · exact (orderly_throw _).andThen fun _ _ further => ih.mono (by omega)
      · exact ih.mono more
    | ok children => exact (ih.mono more).andThen fun _ _ _ => orderly_pure _

private theorem orderly_preloadLevels (inside : cache < n) (remote : Nat) (root : String)
    (depth : Nat) (folders : List String) :
    Orderly n none (Task.preloadLevels cache remote root depth folders) := by
  induction depth generalizing n folders with
  | zero => exact orderly_pure _
  | succ depth ih =>
    cases folders with
    | nil => exact orderly_pure _
    | cons folder rest =>
      refine (orderly_preloadLevel inside remote root _).andThen fun m found more => ?_
      exact (ih (by omega) found.2).andThen fun _ _ _ => orderly_pure _

/-- Folders are claimed one after the other, each given back before the next one. -/
theorem orderly_preload (inside : cache < n) (remote : Nat) (folder : String) (depth : Nat) :
    Orderly n none (Task.preload cache remote folder depth) :=
  orderly_preloadLevels inside remote _ depth _

end Children

end StoreShell
