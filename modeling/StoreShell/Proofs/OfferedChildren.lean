import StoreShell.Children
import StoreShell.Proofs.ListingsApart

/-! # Children that a cache offers

What a cache knows of a folder while loaders share its listing: it has the children that are offered
to everyone, or it does not know them yet and a listing is going to bring them (`Cache.Offers`). Local
changes elsewhere leave the offer as it is, and so do claims and the listings of other folders. The
listing of the folder itself fulfils it.
-/

namespace StoreShell

open StoreShell.Path

/-! ### Entries by name -/

/-- Entries with different names are in strictly ascending order once they are sorted. -/
theorem Task.pairwise_sortByName {entries : List Entry}
    (distinct : entries.Pairwise fun a b => a.name ≠ b.name) :
    (Task.sortByName entries).Pairwise fun a b => a.name < b.name := by
  have perm : (Task.sortByName entries).Perm entries := List.mergeSort_perm ..
  have differ := (perm.pairwise_iff fun differ => differ.symm).mpr distinct
  exact ((Cache.pairwise_mergeSort_name entries).and differ).imp fun both =>
    lt_of_le_of_ne both.1 both.2

/-- The order in which entries come does not matter if they are sorted. -/
theorem Task.sortByName_congr {entries others : List Entry} (perm : entries.Perm others)
    (distinct : others.Pairwise fun a b => a.name ≠ b.name) :
    Task.sortByName entries = Task.sortByName others := by
  refine List.Perm.eq_of_pairwise (fun a b _ _ before after => absurd before (lt_asymm after))
    (Task.pairwise_sortByName ?_) (Task.pairwise_sortByName distinct) ?_
  · exact (perm.pairwise_iff fun differ => differ.symm).mpr distinct
  · exact (List.mergeSort_perm ..).trans (perm.trans (List.mergeSort_perm ..).symm)

/-! ### What a cache offers -/

/-- Whether an answer to a listing of a folder is what a store lists there, in some order, unless it
is a failure. -/
def Store.Tells (s : Store) (folder : String) (answer : Except Failure (List Entry)) : Prop :=
  ∀ entries, answer = .ok entries → ∃ listed, s.list folder = .ok listed ∧ entries.Perm listed

namespace Cache

/-- Whether a cache offers certain children of a folder: it knows these and no others, or none are
known yet, and then they are those that the store lists, if it has the folder. No listing of the
folder is stale. -/
structure Offers (folder : String) (children : List Entry) (s : Store) (c : Cache) : Prop where
  fresh : c.flight? folder ≠ some true
  unknown : (c.flight? folder).isSome → c.childNames? folder = none
  named : c.NamedOnWay folder
  loaded : (c.childNames? folder).isSome → c.children? folder = some children
  listed : c.childNames? folder = none → ∀ listed, s.list folder = .ok listed →
    Task.sortByName listed = children

variable {c c' : Cache} {folder other : String} {children : List Entry} {s : Store} {o : Operation}

/-- A cache offers what it offered if it keeps the children and the claim. -/
theorem Offers.of_kept (offers : c.Offers folder children s) (kept : c.ChildrenKept folder c')
    (flight : c'.flight? folder = c.flight? folder) (named : c'.NamedOnWay folder) :
    c'.Offers folder children s where
  fresh := flight ▸ offers.fresh
  unknown claimed := kept.names.trans (offers.unknown (flight ▸ claimed))
  named := named
  loaded known := kept.entries.trans (offers.loaded (kept.names ▸ known))
  listed := kept.names ▸ offers.listed

/-- What is known does not depend on claims. -/
theorem childrenKept_of_nodes (same : c'.nodes = c.nodes) : c.ChildrenKept folder c' := by
  have names : c'.childNames? = c.childNames? := by
    funext folder
    rw [childNames?, childNames?, same]
  exact ⟨congrFun names folder, by rw [children?, children?, names, same]⟩

theorem NamedOnWay.of_nodes (named : c.NamedOnWay folder) (same : c'.nodes = c.nodes) :
    c'.NamedOnWay folder := by
  intro other names normal within loaded
  rw [childNames?, same] at loaded
  exact named normal within loaded

/-- Changes that touch neither the folder nor one above it leave its children as they are offered.
-/
theorem Offers.apply (offers : c.Offers folder children s) (normal : IsNormal folder)
    (isLocal : o.isLocal) (apart : ¬ o.Touches folder) : (o.apply c).Offers folder children s :=
  offers.of_kept (childrenKept_apply isLocal apart normal offers.named)
    (flight?_apply_of_not_touches isLocal apart normal) (NamedOnWay.apply isLocal apart offers.named)

/-- A claim on another folder takes nothing away. -/
theorem Offers.beginFetch (offers : c.Offers folder children s)
    (begun : (c.beginFetch other).1 = true) : (c.beginFetch other).2.Offers folder children s := by
  obtain ⟨nodes, flights⟩ := beginFetch_of_claimed c other begun
  have kept : c.ChildrenKept folder (c.beginFetch other).2 := childrenKept_of_nodes nodes
  have named : (c.beginFetch other).2.NamedOnWay folder := NamedOnWay.of_nodes offers.named nodes
  by_cases same : normalize other = folder
  · have flight : (c.beginFetch other).2.flight? folder = some false := by
      rw [flights, if_pos same]
    have free := same ▸ (free_of_claimed c other begun).1
    refine ⟨by simp [flight], fun _ => kept.names.trans free, named, ?_, kept.names ▸ offers.listed⟩
    intro known
    rw [kept.names, free] at known
    cases known
  · exact offers.of_kept kept (by rw [flights, if_neg same]) named

theorem Offers.landed (offers : c.Offers folder children s) (differ : folder ≠ other) :
    (c.landed other).Offers folder children s := by
  refine offers.of_kept (childrenKept_of_nodes rfl) ?_ (NamedOnWay.of_nodes offers.named rfl)
  rw [flight?_landed, if_neg (Ne.symm differ)]

/-- The listing of the folder arrives and brings the children. -/
theorem Offers.finishFetch_self (offers : c.Offers folder children s) (sound : s.Sound)
    (normal : IsNormal folder) (claimed : (c.flight? folder).isSome) {entries listed : List Entry}
    (lists : s.list folder = .ok listed) (shuffled : entries.Perm listed) :
    ∃ c', c.finishFetch folder (some entries) = (true, c') ∧ c'.Offers folder children s ∧
      (c'.childNames? folder).isSome ∧ c'.children? folder = some children := by
  have listing := Store.isListing_of_list sound normal lists
  have named : ∀ e ∈ entries, IsName e.name :=
    fun e member => listing.named e (shuffled.mem_iff.mp member)
  have distinct : entries.Pairwise fun a b => a.name ≠ b.name :=
    (shuffled.pairwise_iff fun differ => differ.symm).mpr listing.distinct
  have fresh : c.flight? folder = some false := by
    cases flight : c.flight? folder with
    | none =>
      rw [flight] at claimed
      cases claimed
    | some stale =>
      cases stale with
      | false => rfl
      | true => exact absurd flight offers.fresh
  have unclaimed : ((c.landed folder).install folder entries).flight? folder = none := by
    rw [flight?_install, flight?_landed, if_pos rfl]
  have names : (((c.landed folder).install folder entries).childNames? folder).isSome := by
    rw [childNames?_install_self]
    rfl
  have told : ((c.landed folder).install folder entries).children? folder = some children := by
    have installed := children?_install (c.landed folder) folder named distinct
    rw [normalize_of_isNormal normal] at installed
    rw [installed, ← offers.listed (offers.unknown claimed) listed lists]
    exact congrArg some (Task.sortByName_congr shuffled listing.distinct)
  have finished : c.finishFetch folder (some entries) = _ :=
    finishFetch_of_fresh c folder (by rw [normalize_of_isNormal normal, fresh])
  rw [normalize_of_isNormal normal] at finished
  refine ⟨_, finished, ⟨by simp [unclaimed], by simp [unclaimed], ?_, fun _ => told, ?_⟩, names, told⟩
  · exact NamedOnWay.install (c := c.landed folder) (NamedOnWay.of_nodes offers.named rfl) named
  · intro unknown
    rw [unknown] at names
    cases names

/-- The listing of another folder arrives. It drops the children only if the store does not have the
folder. -/
theorem Offers.finishFetch_of_ne (offers : c.Offers folder children s) (sound : s.Sound)
    (normal : IsNormal folder) (normal' : IsNormal other) (differ : folder ≠ other)
    {answer : Except Failure (List Entry)} (tells : s.Tells other answer) :
    (c.finishFetch other answer.toOption).2.Offers folder children s ∧
      ((c.childNames? folder).isSome → (s.list folder).isOk →
        ((c.finishFetch other answer.toOption).2.childNames? folder).isSome) := by
  have landed := offers.landed differ
  have dropped : c.flight? (normalize other) ≠ some false ∨ answer.toOption = none →
      (c.finishFetch other answer.toOption).2 = c.landed other := by
    intro stale
    rw [finishFetch_of_stale c other stale, normalize_of_isNormal normal']
  by_cases stale : c.flight? (normalize other) ≠ some false ∨ answer.toOption = none
  · rw [dropped stale]
    exact ⟨landed, fun known _ => known⟩
  obtain ⟨fresh, here⟩ := not_or.mp stale
  cases answer with
  | error failure => exact absurd rfl here
  | ok entries =>
    obtain ⟨listed, lists, shuffled⟩ := tells entries rfl
    have finished : c.finishFetch other (some entries) = _ :=
      finishFetch_of_fresh c other (not_not.mp fresh)
    rw [Except.toOption, finished, normalize_of_isNormal normal']
    have listing := Store.isListing_of_list sound normal' lists
    have named : ∀ e ∈ entries, IsName e.name :=
      fun e member => listing.named e (shuffled.mem_iff.mp member)
    have distinct : entries.Pairwise fun a b => a.name ≠ b.name :=
      (shuffled.pairwise_iff fun differ => differ.symm).mpr listing.distinct
    have onWay : ((c.landed other).install other entries).NamedOnWay folder :=
      NamedOnWay.install (c := c.landed other) landed.named named
    cases has : (s.list folder).isOk with
    | true =>
      -- the store has the folder, and the listing of a folder above shows it
      obtain ⟨o, stored, folderly⟩ : ∃ o, s.get? folder = .some o ∧ o.entry.isFolder := by
        cases lists : s.list folder with
        | ok all => exact (Store.isListing_of_list sound normal lists).isFolder
        | error failure =>
          rw [lists] at has
          cases has
      have kept := childrenKept_install_of_isListing (c := c.landed other) sound normal normal'
        landed.named differ listing shuffled stored folderly
      refine ⟨landed.of_kept kept rfl onWay, fun known _ => ?_⟩
      rw [kept.names]
      exact known
    | false =>
      refine ⟨?_, fun _ ok => by cases ok⟩
      rcases childrenKept_install (c := c.landed other) normal normal' landed.named differ named
        distinct with kept | ⟨-, dropped, -⟩
      · exact landed.of_kept kept rfl onWay
      · refine ⟨landed.fresh, fun _ => dropped, onWay, ?_, fun _ all lists => ?_⟩
        · rw [dropped]
          intro known
          cases known
        · rw [lists] at has
          cases has

end Cache

end StoreShell
