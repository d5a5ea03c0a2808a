import StoreShell.Proofs.CacheLookups
import StoreShell.Script

/-! # What remote stores have told

Whatever a cache knows was told by a remote store at some time, in the answer to a request or to a
listing. Several stores may have told things, and every cache is to know what one of them has told and
nothing else (`Cache.ToldBy`). Noting an object keeps this if the store has told its entry, installing
a listing if the store has told the listing, and everything else that happens to a cache keeps it.

The entry that a cache has for the root from the beginning is the only one that nobody has told.
-/

namespace StoreShell

open StoreShell.Path

/-- Something that a numbered remote store has told. -/
inductive Telling where
  /-- The entry of the object at a path. -/
  | object (remote : Nat) (path : String) (e : Entry)
  /-- All children of a folder. -/
  | listing (remote : Nat) (folder : String)
  deriving DecidableEq

namespace Telling

/-- What a store tells when it answers with the entry of an object. -/
def ofEntry (remote : Nat) (path : String) : Except Failure Entry → List Telling
  | .ok e => [.object remote (normalize path) e]
  | .error _ => []

/-- What a store tells when it answers with the children of a folder. -/
def ofListing (remote : Nat) (folder : String) : Except Failure (List Entry) → List Telling
  | .ok entries => .listing remote (normalize folder) ::
      entries.map fun e => .object remote (join (normalize folder) e.name) e
  | .error _ => []

end Telling

/-- What a store tells when it answers a request. -/
def Request.tellings : (r : Request) → r.Answer → List Telling
  | .stat remote path, answer => Telling.ofEntry remote path answer
  | .upload remote path _ _, answer => Telling.ofEntry remote path answer
  | .makeFolder remote path _, answer => Telling.ofEntry remote path answer
  | .rename remote _ target, answer => Telling.ofEntry remote target answer
  | _, _ => []

namespace Cache

/-- Whether a path is one of a child of a folder that is known. -/
def Names (c : Cache) (path : String) : Prop :=
  ∃ folder names name, c.childNames? folder = some names ∧ name ∈ names ∧ join folder name = path

/-- Whether a cache knows nothing but what a remote store has told. -/
structure ToldBy (remote : Nat) (told : List Telling) (c : Cache) : Prop where
  object : ∀ {path e}, c.entryAt? path = some e → path ≠ root ∨ c.Names path →
    .object remote path e ∈ told
  listing : ∀ {folder}, (c.childNames? folder).isSome → .listing remote folder ∈ told

variable {c c' : Cache} {remote : Nat} {told told' : List Telling} {path folder : String}

/-! ### What is read off -/

theorem toldBy_of_rootOnly (bare : c.nodes = rootOnly) : c.ToldBy remote told where
  object {path e} found outside := by
    rw [entryAt?_of_rootOnly bare] at found
    split at found
    · next same =>
      rcases outside with deep | ⟨folder, names, name, loaded, -⟩
      · exact absurd same.symm deep
      · rw [childNames?_of_rootOnly bare] at loaded
        cases loaded
    · cases found
  listing loaded := by
    rw [childNames?_of_rootOnly bare] at loaded
    cases loaded

/-- A cache is told by a store as before if whatever is new in it was told by the store. -/
theorem ToldBy.of_changes (toldBy : c.ToldBy remote told)
    (object : ∀ {path e}, c'.entryAt? path = some e → .object remote path e ∈ told ∨
      c.entryAt? path = some e ∧ (c'.Names path → c.Names path))
    (listing : ∀ {folder}, (c'.childNames? folder).isSome →
      .listing remote folder ∈ told ∨ (c.childNames? folder).isSome) : c'.ToldBy remote told where
  object found outside := by
    rcases object found with new | ⟨old, named⟩
    · exact new
    · exact toldBy.object old (outside.imp_right named)
  listing loaded := by
    rcases listing loaded with new | old
    · exact new
    · exact toldBy.listing old

/-- What was told once stays told. -/
theorem ToldBy.mono (toldBy : c.ToldBy remote told) (more : told ⊆ told') : c.ToldBy remote told' :=
  ⟨fun found outside => more (toldBy.object found outside), fun loaded => more (toldBy.listing loaded)⟩

theorem ToldBy.of_nodes (toldBy : c.ToldBy remote told) (same : c'.nodes = c.nodes) :
    c'.ToldBy remote told := by
  have names : c'.childNames? = c.childNames? := by
    funext folder
    rw [childNames?, childNames?, same]
  refine toldBy.of_changes (fun found => Or.inr ⟨?_, ?_⟩) fun loaded => Or.inr (names ▸ loaded)
  · rwa [entryAt?, same] at found
  · rintro ⟨folder, all, name, loaded, member, at_⟩
    exact ⟨folder, all, name, names ▸ loaded, member, at_⟩

/-- The names of children are those of before. -/
theorem Names.of_kept (kept : ∀ {folder names}, c'.childNames? folder = some names →
    ∃ before, c.childNames? folder = some before ∧ ∀ name ∈ names, name ∈ before)
    (named : c'.Names path) : c.Names path := by
  obtain ⟨folder, names, name, loaded, member, at_⟩ := named
  obtain ⟨before, old, inside⟩ := kept loaded
  exact ⟨folder, before, name, old, inside name member, at_⟩

/-- An object is noted whose entry the store has told. -/
theorem ToldBy.add (toldBy : c.ToldBy remote told) {e : Entry}
    (new : .object remote (normalize path) e ∈ told) : (c.add e path).ToldBy remote told := by
  refine toldBy.of_changes (fun {other d} found => ?_) fun {folder} loaded => Or.inr ?_
  · rw [entryAt?_add] at found
    split at found
    · next same =>
      cases found
      exact Or.inl (same ▸ new)
    · next differ =>
      refine Or.inr ⟨found, ?_⟩
      rintro ⟨folder, names, name, loaded, member, rfl⟩
      rw [childNames?_add] at loaded
      split at loaded
      · next parent =>
        obtain ⟨before, old, rfl⟩ := Option.map_eq_some_iff.mp loaded
        rw [Std.TreeSet.mem_insert, Std.LawfulEqCmp.compare_eq_iff_eq] at member
        rcases member with rfl | member
        · exact absurd ((isNormal_normalize path).of_parent? parent).2.2.symm differ
        · exact ⟨folder, before, name, old, member, rfl⟩
      · exact ⟨folder, names, name, loaded, member, rfl⟩
  · rw [childNames?_add] at loaded
    split at loaded
    · rwa [Option.isSome_map] at loaded
    · exact loaded

/-- The children of a folder are installed that the store has told. -/
theorem ToldBy.install (toldBy : c.ToldBy remote told) {entries : List Entry}
    (objects : ∀ e ∈ entries, .object remote (join folder e.name) e ∈ told)
    (listing : .listing remote folder ∈ told) : (c.install folder entries).ToldBy remote told := by
  refine toldBy.of_changes (fun {path e} found => ?_) fun {other} loaded => ?_
  · by_cases listed : ∃ d ∈ entries, join folder d.name = path
    · obtain ⟨d, member, rfl, here⟩ := exists_entryAt?_install_of_listed c listed
      rw [here, Option.some.injEq] at found
      exact Or.inl (found ▸ objects d member)
    · rw [entryAt?_install_of_notMem c fun d member same => listed ⟨d, member, same⟩] at found
      split at found
      · cases found
      · refine Or.inr ⟨found, ?_⟩
        rintro ⟨other, names, name, loaded, member, rfl⟩
        by_cases same : other = folder
        · subst same
          obtain ⟨d, inside, rfl⟩ :=
            List.mem_map.mp ((mem_childNames?_install_self c loaded).mp member)
          exact absurd ⟨d, inside, rfl⟩ listed
        · exact ⟨other, names, name, (childNames?_of_install_of_ne c same loaded).1, member, rfl⟩
  · by_cases same : other = folder
    · exact Or.inl (same ▸ listing)
    · obtain ⟨names, loaded⟩ := Option.isSome_iff_exists.mp loaded
      exact Or.inr ((childNames?_of_install_of_ne c same loaded).1 ▸ rfl)

/-- Forgetting leaves what was told by the store. -/
theorem ToldBy.invalidate (toldBy : c.ToldBy remote told) (folder : String) :
    (c.invalidate folder).ToldBy remote told := by
  have kept : ∀ {other names}, (c.invalidate folder).childNames? other = some names →
      c.childNames? other = some names := by
    intro other names loaded
    rw [childNames?_invalidate] at loaded
    split at loaded
    · cases loaded
    · exact loaded
  refine toldBy.of_changes (fun found => Or.inr ⟨?_, ?_⟩) fun loaded => Or.inr ?_
  · rw [entryAt?_invalidate] at found
    split at found
    · cases found
    · exact found
  · exact Names.of_kept fun loaded => ⟨_, kept loaded, fun _ => id⟩
  · obtain ⟨names, loaded⟩ := Option.isSome_iff_exists.mp loaded
    rw [kept loaded]
    rfl

theorem ToldBy.forgetStale (toldBy : c.ToldBy remote told) (path : String) :
    (c.forgetStale path).ToldBy remote told := by
  rcases forgetStale_eq c path with same | ⟨folder, same⟩
  · rwa [same]
  · rw [same]
    exact toldBy.invalidate folder

theorem ToldBy.remove (toldBy : c.ToldBy remote told) (path : String) :
    (c.remove path).ToldBy remote told := by
  cases parent : parent? (normalize path) with
  | none =>
    rw [Cache.remove, parent]
    exact toldBy_of_rootOnly rfl
  | some above =>
    have kept : ∀ {other names}, (c.remove path).childNames? other = some names →
        ∃ before, c.childNames? other = some before ∧ ∀ name ∈ names, name ∈ before := by
      intro other names loaded
      rw [childNames?_remove _ parent] at loaded
      split at loaded
      · cases loaded
      · split at loaded
        · obtain ⟨before, old, rfl⟩ := Option.map_eq_some_iff.mp loaded
          exact ⟨before, old, fun name member => Std.TreeSet.mem_of_mem_erase member⟩
        · exact ⟨names, loaded, fun _ => id⟩
    refine toldBy.of_changes (fun found => Or.inr ⟨?_, Names.of_kept kept⟩) fun loaded => Or.inr ?_
    · rw [entryAt?_remove _ parent] at found
      split at found
      · cases found
      · exact found
    · obtain ⟨names, loaded⟩ := Option.isSome_iff_exists.mp loaded
      obtain ⟨before, old, -⟩ := kept loaded
      rw [old]
      rfl

/-- A claim puts nothing into a cache. -/
theorem ToldBy.beginFetch (toldBy : c.ToldBy remote told) (folder : String) :
    (c.beginFetch folder).2.ToldBy remote told := by
  cases begun : (c.beginFetch folder).1 with
  | true => exact toldBy.of_nodes (beginFetch_of_claimed c folder begun).1
  | false =>
    rw [beginFetch_of_refused c folder begun]
    exact toldBy

/-- A listing arrives that the store has told, or none. -/
theorem ToldBy.finishFetch (toldBy : c.ToldBy remote told) {entries : Option (List Entry)}
    (listed : ∀ all, entries = some all → Telling.ofListing remote folder (.ok all) ⊆ told) :
    (c.finishFetch folder entries).2.ToldBy remote told := by
  have landed : (c.landed (normalize folder)).ToldBy remote told := toldBy.of_nodes rfl
  rcases finishFetch_cases c folder entries with ⟨-, refused⟩ | ⟨all, arrived, -, installed⟩
  · rw [refused]
    exact landed
  · rw [installed]
    have told := listed all arrived
    exact landed.install (fun e member => told (List.mem_cons_of_mem _ (List.mem_map_of_mem member)))
      (told (List.mem_cons_self ..))

end Cache

end StoreShell
