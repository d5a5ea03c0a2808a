import StoreShell.Proofs.CacheLookups
import StoreShell.Proofs.StoreChanges

/-! # Caches that mirror a store

A cache mirrors a store if every entry that it has is the one in the store and every folder that it
has listed has exactly the children that the store has there, each with its entry. The changes that
a client makes keep this up when the cache is told of each in the way the commands do it: a new
object is noted, a removed one is forgotten, and before a folder is noted that was made together
with folders above it, the nearest listed folder above is forgotten if it does not know the way.
-/

namespace StoreShell.Cache

open StoreShell.Path Store

/-- Whether everything that a cache tells about a store is true. -/
structure Mirrors (c : Cache) (s : Store) : Prop where
  tidy : c.Tidy
  entry : ∀ {path e}, c.entryAt? path = some e → ∃ o, s.get? path = some o ∧ o.entry = e
  folder : ∀ {folder names}, c.childNames? folder = some names →
    ∃ o, s.get? folder = some o ∧ o.entry.isFolder
  names : ∀ {folder names}, c.childNames? folder = some names →
    ∀ {name}, name ∈ names ↔ IsName name ∧ ∃ o, s.get? (join folder name) = some o
  known : ∀ {folder names}, c.childNames? folder = some names →
    ∀ {name}, name ∈ names → ∃ e, c.entryAt? (join folder name) = some e

variable {c : Cache} {s s' : Store} {path source target : String} {e : Entry}

theorem Mirrors.of_nodes {c' : Cache} (mirrors : c.Mirrors s) (same : c'.nodes = c.nodes) :
    c'.Mirrors s := by
  have entries : ∀ path, c'.entryAt? path = c.entryAt? path := fun path => by
    rw [entryAt?, entryAt?, same]
  have children : ∀ folder, c'.childNames? folder = c.childNames? folder := fun folder => by
    rw [childNames?, childNames?, same]
  refine ⟨?_, ?_, ?_, ?_, ?_⟩
  · exact fun path member => mirrors.tidy path (same ▸ member)
  · exact fun found => mirrors.entry (entries _ ▸ found)
  · exact fun found => mirrors.folder (children _ ▸ found)
  · exact fun found => mirrors.names (children _ ▸ found)
  · intro folder names found name member
    rw [entries]
    exact mirrors.known (children _ ▸ found) member

/-- An empty cache mirrors every store, of which it knows only the root. -/
theorem mirrors_empty (kept : s.HasRoot) : Cache.empty.Mirrors s := by
  have bare : Cache.empty.nodes = rootOnly := rfl
  have unlisted : ∀ {folder names}, Cache.empty.childNames? folder ≠ some names := by
    intro folder names found
    rw [childNames?_of_rootOnly bare] at found
    cases found
  refine ⟨tidy_of_rootOnly bare, ?_, fun found => absurd found unlisted,
    fun found => absurd found unlisted, fun found => absurd found unlisted⟩
  intro path e found
  rw [entryAt?_of_rootOnly bare] at found
  split at found
  · next same =>
    obtain ⟨o, stored, entry⟩ := kept
    exact ⟨o, same ▸ stored, entry.trans (Option.some.inj found)⟩
  · cases found

/-- A cache that forgets goes on mirroring. -/
theorem Mirrors.invalidate (mirrors : c.Mirrors s) (folder : String) :
    (c.invalidate folder).Mirrors s := by
  have entries : ∀ {path e}, (c.invalidate folder).entryAt? path = some e →
      c.entryAt? path = some e := by
    intro path e found
    rw [entryAt?_invalidate] at found
    split at found
    · cases found
    · exact found
  have children : ∀ {other names}, (c.invalidate folder).childNames? other = some names →
      ¬ isWithin other (normalize folder) ∧ c.childNames? other = some names := by
    intro other names found
    rw [childNames?_invalidate] at found
    split at found
    · cases found
    · next outside => exact ⟨outside, found⟩
  refine ⟨mirrors.tidy.invalidate folder, fun found => mirrors.entry (entries found),
    fun found => mirrors.folder (children found).2, fun found => mirrors.names (children found).2, ?_⟩
  intro other names found name member
  obtain ⟨outside, listed⟩ := children found
  obtain ⟨e, entry⟩ := mirrors.known listed member
  have named := ((mirrors.names listed).mp member).1
  have normal := mirrors.tidy.of_childNames? listed
  refine ⟨e, ?_⟩
  rw [entryAt?_invalidate, if_neg, entry]
  exact fun below => outside ((isBelow_join_iff normal named (isNormal_normalize folder)).mp below)

theorem Mirrors.forgetStale (mirrors : c.Mirrors s) (path : String) :
    (c.forgetStale path).Mirrors s := by
  rcases forgetStale_eq c path with same | ⟨folder, same⟩
  · rwa [same]
  · rw [same]
    exact mirrors.invalidate folder

/-- Noting an object keeps up with a store that got it, if no listed folder got anything else. -/
theorem Mirrors.add (mirrors : c.Mirrors s) (normal : IsNormal path)
    (here : ∃ o, s'.get? path = some o ∧ o.entry = e)
    (kept : ∀ {other o}, other ≠ path → s.get? other = some o → s'.get? other = some o)
    (kind : ∀ o, s.get? path = some o → o.entry.isFolder → e.isFolder)
    (fresh : ∀ {other o folder}, other ≠ path → s'.get? other = some o → s.get? other = none →
      parent? other = some folder → c.childNames? folder = none) : (c.add e path).Mirrors s' := by
  have normalized := normalize_of_isNormal normal
  have listed : ∀ {folder names}, (c.add e path).childNames? folder = some names →
      ∃ before, c.childNames? folder = some before ∧ ∀ name, name ∈ names ↔
        (parent? path = some folder ∧ name = fileName path) ∨ name ∈ before := by
    intro folder names found
    rw [childNames?_add, normalized] at found
    split at found
    · next parent =>
      obtain ⟨before, old, rfl⟩ := Option.map_eq_some_iff.mp found
      refine ⟨before, old, fun name => ?_⟩
      rw [Std.TreeSet.mem_insert, Std.LawfulEqCmp.compare_eq_iff_eq]
      simp only [parent, true_and, eq_comm]
    · next aside => exact ⟨names, found, fun name => by simp [aside]⟩
  -- the children of a listed folder are those of before, apart from the object
  have others : ∀ {folder before}, c.childNames? folder = some before → ∀ {name}, IsName name →
      join folder name ≠ path →
      ((∃ o, s'.get? (join folder name) = some o) ↔ ∃ o, s.get? (join folder name) = some o) := by
    intro folder before old name named differ
    have parent := parent?_join (mirrors.tidy.of_childNames? old) named
    constructor
    · rintro ⟨o, stored⟩
      cases found : s.get? (join folder name) with
      | some o => exact ⟨o, rfl⟩
      | none =>
        rw [fresh differ stored found parent] at old
        cases old
    · rintro ⟨o, stored⟩
      exact ⟨o, kept differ stored⟩
  refine ⟨mirrors.tidy.add e path, ?_, ?_, ?_, ?_⟩
  · intro other d found
    rw [entryAt?_add, normalized] at found
    split at found
    · next same =>
      cases found
      exact same ▸ here
    · next differ =>
      obtain ⟨o, stored, entry⟩ := mirrors.entry found
      exact ⟨o, kept (Ne.symm differ) stored, entry⟩
  · intro folder names found
    obtain ⟨before, old, -⟩ := listed found
    obtain ⟨o, stored, folderly⟩ := mirrors.folder old
    by_cases same : folder = path
    · subst same
      obtain ⟨new, there, entry⟩ := here
      exact ⟨new, there, entry ▸ kind o stored folderly⟩
    · exact ⟨o, kept same stored, folderly⟩
  · intro folder names found name
    obtain ⟨before, old, member⟩ := listed found
    have normalFolder := mirrors.tidy.of_childNames? old
    rw [member]
    by_cases own : IsName name ∧ join folder name = path
    · obtain ⟨named, rfl⟩ := own
      obtain ⟨o, there, -⟩ := here
      rw [parent?_join normalFolder named, fileName_join normalFolder named]
      exact iff_of_true (Or.inl ⟨rfl, rfl⟩) ⟨named, o, there⟩
    · have notIt : ¬ (parent? path = some folder ∧ name = fileName path) := by
        rintro ⟨parent, rfl⟩
        obtain ⟨-, named, same⟩ := normal.of_parent? parent
        exact own ⟨named, same⟩
      rw [or_iff_right notIt, mirrors.names old, and_congr_right_iff]
      exact fun named => (others old named fun same => own ⟨named, same⟩).symm
  · intro folder names found name member'
    obtain ⟨before, old, member⟩ := listed found
    rw [entryAt?_add, normalized]
    split
    · exact ⟨e, rfl⟩
    · next differ =>
      rcases (member name).mp member' with ⟨parent, rfl⟩ | inside
      · exact absurd (normal.of_parent? parent).2.2.symm differ
      · exact mirrors.known old inside

/-- Noting an object that a store has. -/
theorem Mirrors.note (mirrors : c.Mirrors s) (normal : IsNormal path) {o : StoredObject}
    (found : s.get? path = some o) : (c.add o.entry path).Mirrors s := by
  refine mirrors.add normal ⟨o, found, rfl⟩ (fun _ => id) ?_ ?_
  · intro old stored folderly
    rw [found, Option.some.injEq] at stored
    exact stored ▸ folderly
  · intro other o folder _ stored missing
    rw [missing] at stored
    cases stored

/-- A cache that is told of a written file mirrors the store that has it. -/
theorem Mirrors.writesFile (mirrors : c.Mirrors s) (writes : WritesFile s s' path e) :
    (c.add e path).Mirrors s' := by
  obtain ⟨new, entry, -, effect⟩ := writes.effect
  refine mirrors.add writes.normal ⟨new, (effect path).trans (if_pos rfl), entry⟩ ?_ ?_ ?_
  · intro other o differ stored
    rw [effect, if_neg (Ne.symm differ), stored]
  · intro o stored folderly
    rw [writes.before o stored] at folderly
    cases folderly
  · intro other o folder differ stored missing
    rw [effect, if_neg (Ne.symm differ), missing] at stored
    cases stored

/-- A cache that is told of a new folder, and of what was made on the way, mirrors the store that
has it. -/
theorem Mirrors.makesFolder (mirrors : c.Mirrors s) (sound : s.Sound) {parents : Bool}
    (makes : MakesFolder s s' path parents e) :
    ((if parents then c.forgetStale path else c).add e path).Mirrors s' := by
  have mirrors' : (if parents then c.forgetStale path else c).Mirrors s := by
    split
    · exact mirrors.forgetStale path
    · exact mirrors
  refine mirrors'.add makes.normal makes.here (fun _ => makes.kept) (fun _ _ _ => makes.folder) ?_
  intro other o folder differ stored missing parent
  obtain ⟨wanted, below⟩ := makes.fresh differ stored missing
  rw [if_pos wanted]
  have normal := makes.sound.normal stored
  have unknown : c.entryAt? other = none := by
    cases found : c.entryAt? other with
    | none => rfl
    | some d =>
      obtain ⟨o, stored, -⟩ := mirrors.entry found
      rw [missing] at stored
      cases stored
  cases loaded : (c.forgetStale path).childNames? folder with
  | none => rfl
  | some names =>
    obtain ⟨middle, names, -, within, -, listed⟩ := childNames?_of_forgetStale makes.normal normal
      parent (isWithin_iff.mpr (Or.inr below)) differ unknown loaded
    obtain ⟨o, found, -⟩ := mirrors.folder listed
    rw [sound.get?_of_isWithin missing normal within] at found
    cases found

/-- A cache that is told of a removal mirrors what is left. -/
theorem Mirrors.removes (mirrors : c.Mirrors s) (removes : Removes s s' path) :
    (c.remove path).Mirrors s' := by
  have normalized := normalize_of_isNormal removes.normal
  obtain ⟨above, parent⟩ := removes.normal.exists_parent? removes.deep
  have parent' : parent? (normalize path) = some above := normalized.symm ▸ parent
  have listed : ∀ {folder names}, (c.remove path).childNames? folder = some names →
      ¬ isWithin folder path ∧ ∃ before, c.childNames? folder = some before ∧
        ∀ name, name ∈ names ↔ ¬ (above = folder ∧ name = fileName path) ∧ name ∈ before := by
    intro folder names found
    rw [childNames?_remove folder parent', normalized] at found
    split at found
    · cases found
    · next outside =>
      refine ⟨outside, ?_⟩
      split at found
      · next same =>
        obtain ⟨before, old, rfl⟩ := Option.map_eq_some_iff.mp found
        refine ⟨before, old, fun name => ?_⟩
        rw [Std.TreeSet.mem_erase, ne_eq, Std.LawfulEqCmp.compare_eq_iff_eq]
        simp only [same, true_and, eq_comm]
      · next differ => exact ⟨names, found, fun name => by simp [differ]⟩
  have within : ∀ {folder name}, IsNormal folder → IsName name → ¬ isWithin folder path →
      (isWithin (join folder name) path ↔ above = folder ∧ name = fileName path) := by
    intro folder name normal named outside
    rw [isWithin_iff, isBelow_join_iff normal named removes.normal, or_iff_left outside]
    constructor
    · rintro rfl
      rw [parent?_join normal named, Option.some.injEq] at parent
      exact ⟨parent.symm, (fileName_join normal named).symm⟩
    · rintro ⟨rfl, rfl⟩
      exact (removes.normal.of_parent? parent).2.2
  refine ⟨mirrors.tidy.remove parent', ?_, ?_, ?_, ?_⟩
  · intro other d found
    rw [entryAt?_remove other parent', normalized] at found
    split at found
    · cases found
    · next outside =>
      obtain ⟨o, stored, entry⟩ := mirrors.entry found
      exact ⟨o, (removes.effect other).trans ((if_neg outside).trans stored), entry⟩
  · intro folder names found
    obtain ⟨outside, before, old, -⟩ := listed found
    obtain ⟨o, stored, folderly⟩ := mirrors.folder old
    exact ⟨o, (removes.effect folder).trans ((if_neg outside).trans stored), folderly⟩
  · intro folder names found name
    obtain ⟨outside, before, old, member⟩ := listed found
    have normal := mirrors.tidy.of_childNames? old
    rw [member, mirrors.names old, and_left_comm, and_congr_right_iff]
    intro named
    rw [removes.effect, ← within normal named outside]
    split
    · next inside => simp [inside]
    · next aside => simp [aside]
  · intro folder names found name member'
    obtain ⟨outside, before, old, member⟩ := listed found
    obtain ⟨notIt, inside⟩ := (member name).mp member'
    have named := ((mirrors.names old).mp inside).1
    rw [entryAt?_remove _ parent', normalized, if_neg]
    · exact mirrors.known old inside
    · exact fun gone => notIt ((within (mirrors.tidy.of_childNames? old) named outside).mp gone)

/-- A cache that is told of both ends of a move mirrors the store afterwards. -/
theorem Mirrors.moves (mirrors : c.Mirrors s) (sound : s.Sound)
    (moves : Moves s s' source target e) : ((c.remove source).add e target).Mirrors s' := by
  have left := mirrors.removes moves.leaves
  have sound' := moves.leaves.sound sound
  refine left.add moves.normal moves.here (fun _ => moves.kept) ?_ ?_
  · intro o stored
    rw [moves.free] at stored
    cases stored
  · intro other o folder differ stored missing parent
    have below := (isWithin_iff.mp (moves.fresh stored missing)).resolve_left differ
    have within := (isBelow_iff_of_parent? (moves.sound.normal stored) parent moves.normal).mp below
    cases listed : (c.remove source).childNames? folder with
    | none => rfl
    | some names =>
      obtain ⟨top, found, -⟩ := left.folder listed
      rw [sound'.get?_of_isWithin moves.free moves.normal within] at found
      cases found

/-! ### Listings -/

section Listing

variable {folder : String} {entries listed : List Entry}

/-- A listing in any order drops nothing that the store has. -/
theorem Mirrors.isGone_of_stored (mirrors : c.Mirrors s) (sound : s.Sound) (normal : IsNormal folder)
    (listing : IsListing s folder listed) (shuffled : entries.Perm listed) {o : StoredObject}
    (stored : s.get? path = some o) : c.isGone folder entries path = false := by
  rw [Bool.eq_false_iff]
  intro gone
  obtain ⟨name, called, unlisted, within⟩ := exists_of_isGone normal (sound.normal stored) gone
    fun names listed name member => ((mirrors.names listed).mp member).1
  obtain ⟨above, found⟩ := sound.of_isWithin stored (normal.join called) within
  have named := (listing.mem_names sound normal name).mpr ⟨called, above, found⟩
  obtain ⟨e, member, same⟩ := List.mem_map.mp ((shuffled.map Entry.name).mem_iff.mpr named)
  exact unlisted e member same

/-- Installing a listing, in any order. -/
theorem Mirrors.install (mirrors : c.Mirrors s) (sound : s.Sound) (normal : IsNormal folder)
    (listing : IsListing s folder listed) (shuffled : entries.Perm listed) :
    (c.install folder entries).Mirrors s := by
  have named : ∀ e ∈ entries, IsName e.name := fun e member =>
    listing.named e (shuffled.mem_iff.mp member)
  have distinct : entries.Pairwise fun a b => a.name ≠ b.name :=
    (shuffled.pairwise_iff fun differ => differ.symm).mpr listing.distinct
  have mem_names : ∀ name, name ∈ entries.map Entry.name ↔
      IsName name ∧ ∃ o, s.get? (join folder name) = some o := fun name =>
    (shuffled.map Entry.name).mem_iff.trans (listing.mem_names sound normal name)
  have stays : ∀ {path o}, s.get? path = some o → c.isGone folder entries path = false :=
    fun stored => mirrors.isGone_of_stored sound normal listing shuffled stored
  refine ⟨mirrors.tidy.install normal named, ?_, ?_, ?_, ?_⟩
  · intro path d found
    by_cases listed : ∃ e ∈ entries, join folder e.name = path
    · obtain ⟨e, member, rfl⟩ := listed
      rw [entryAt?_install_of_mem c normal named distinct member, Option.some.injEq] at found
      exact found ▸ ((listing.mem e).mp (shuffled.mem_iff.mp member)).2
    · rw [entryAt?_install_of_notMem c fun e member same => listed ⟨e, member, same⟩] at found
      split at found
      · cases found
      · exact mirrors.entry found
  · intro other names found
    by_cases same : other = folder
    · exact same ▸ listing.isFolder
    · exact mirrors.folder (childNames?_of_install c normal named distinct same found).1
  · intro other names found name
    by_cases same : other = folder
    · subst same
      rw [mem_childNames?_install_self c found]
      exact mem_names name
    · exact mirrors.names (childNames?_of_install c normal named distinct same found).1
  · intro other names found name member
    by_cases listed : ∃ e ∈ entries, join folder e.name = join other name
    · obtain ⟨e, inside, same⟩ := listed
      exact ⟨e, same ▸ entryAt?_install_of_mem c normal named distinct inside⟩
    · rw [entryAt?_install_of_notMem c fun e inside same => listed ⟨e, inside, same⟩]
      by_cases same : other = folder
      · subst same
        obtain ⟨e, inside, rfl⟩ := List.mem_map.mp ((mem_childNames?_install_self c found).mp member)
        exact absurd ⟨e, inside, rfl⟩ listed
      · have old := (childNames?_of_install c normal named distinct same found).1
        obtain ⟨-, o, stored⟩ := (mirrors.names old).mp member
        rw [stays stored, if_neg (by simp)]
        exact mirrors.known old member

/-- A listing, in any order, makes one more folder known. -/
theorem Mirrors.isSome_childNames?_install (mirrors : c.Mirrors s) (sound : s.Sound)
    (normal : IsNormal folder) (listing : IsListing s folder listed)
    (shuffled : entries.Perm listed) (other : String) :
    ((c.install folder entries).childNames? other).isSome ↔
      (c.childNames? other).isSome ∨ other = folder := by
  have named : ∀ e ∈ entries, IsName e.name := fun e member =>
    listing.named e (shuffled.mem_iff.mp member)
  have distinct : entries.Pairwise fun a b => a.name ≠ b.name :=
    (shuffled.pairwise_iff fun differ => differ.symm).mpr listing.distinct
  by_cases same : other = folder
  · rw [same, childNames?_install_self]
    exact iff_of_true rfl (Or.inr rfl)
  rw [or_iff_left same, Option.isSome_iff_exists, Option.isSome_iff_exists]
  refine exists_congr fun names =>
    ⟨fun found => (childNames?_of_install c normal named distinct same found).1, fun found => ?_⟩
  obtain ⟨o, stored, folderly⟩ := mirrors.folder found
  have stays := mirrors.isGone_of_stored sound normal listing shuffled stored
  by_cases listed : ∃ e ∈ entries, join folder e.name = other
  · obtain ⟨e, member, rfl⟩ := listed
    obtain ⟨-, o', stored', rfl⟩ := (listing.mem e).mp (shuffled.mem_iff.mp member)
    rw [stored, Option.some.injEq] at stored'
    rw [childNames?_install_of_mem c normal named distinct member (stored' ▸ folderly) stays, found]
  · rw [childNames?_install_of_notMem c same fun e member at_ => listed ⟨e, member, at_⟩, stays,
      if_neg Bool.false_ne_true, found]

private theorem filterMap_eq_self {f : Entry → Option Entry} (told : ∀ e ∈ entries, f e = some e) :
    entries.filterMap f = entries := by
  induction entries with
  | nil => rfl
  | cons e rest ih =>
    rw [List.filterMap_cons_some (told e (List.mem_cons_self ..)),
      ih fun d member => told d (List.mem_cons_of_mem _ member)]

/-- The names that a cache knows in a folder stand in the order of the listing. -/
theorem Mirrors.toList_names (mirrors : c.Mirrors s) (sound : s.Sound) (normal : IsNormal folder)
    {names : Std.TreeSet String} (listed : c.childNames? folder = some names)
    (listing : IsListing s folder entries) : names.toList = entries.map Entry.name := by
  have distinct : ∀ {texts : List String}, texts.Pairwise (fun a b => compare a b = .lt) →
      texts.Nodup := by
    intro texts ordered
    refine ordered.imp ?_
    rintro a b before rfl
    rw [Std.ReflOrd.compare_self] at before
    cases before
  have ordered : (entries.map Entry.name).Pairwise fun a b => compare a b = .lt :=
    List.pairwise_map.mpr listing.ordered
  refine List.Perm.eq_of_pairwise ?_ Std.TreeSet.ordered_toList ordered ?_
  · intro a b _ _ before after
    rw [Std.OrientedOrd.eq_swap, before] at after
    cases after
  · refine (List.perm_ext_iff_of_nodup (distinct Std.TreeSet.ordered_toList)
      (distinct ordered)).mpr fun name => ?_
    rw [Std.TreeSet.mem_toList, mirrors.names listed, listing.mem_names sound normal]

/-- What a cache knows about an object in a folder that it has listed is what the store has. -/
theorem Mirrors.entryAt?_join (mirrors : c.Mirrors s) {names : Std.TreeSet String}
    (listed : c.childNames? folder = some names) {name : String} (named : IsName name) :
    c.entryAt? (join folder name) = (s.get? (join folder name)).map StoredObject.entry := by
  cases known : c.entryAt? (join folder name) with
  | some e =>
    obtain ⟨o, stored, rfl⟩ := mirrors.entry known
    rw [stored]
    rfl
  | none =>
    cases stored : s.get? (join folder name) with
    | none => rfl
    | some o =>
      obtain ⟨e, told⟩ := mirrors.known listed ((mirrors.names listed).mpr ⟨named, o, stored⟩)
      rw [known] at told
      cases told

/-- What a cache tells about the children of a folder is what the store lists. -/
theorem Mirrors.children?_eq (mirrors : c.Mirrors s) (sound : s.Sound) (normal : IsNormal folder)
    {names : Std.TreeSet String} (listed : c.childNames? folder = some names) :
    ∃ entries, c.children? folder = some entries ∧ s.list folder = .ok entries := by
  obtain ⟨o, found, folderly⟩ := mirrors.folder listed
  obtain ⟨entries, done, listing⟩ := exists_isListing sound normal found folderly
  refine ⟨entries, ?_, done⟩
  have told : ∀ e ∈ entries, c.nodes[join folder e.name]?.bind Node.entry = some e := by
    intro e member
    obtain ⟨named, o, stored, same⟩ := (listing.mem e).mp member
    have known := mirrors.entryAt?_join listed named
    rw [stored, Option.map_some, same] at known
    exact known
  rw [children?, normalize_of_isNormal normal, listed, Option.map_some,
    mirrors.toList_names sound normal listed listing, List.filterMap_map, Option.some.injEq]
  exact filterMap_eq_self told

/-- A folder that is neither known nor on its way is fetched. The cache mirrors the store again
whether the listing fails or arrives, and in the latter case tells the listing by name. -/
theorem Mirrors.fetch (mirrors : c.Mirrors s) (sound : s.Sound) (normal : IsNormal folder)
    (idle : ∀ other, c.flight? other = none) (unlisted : c.childNames? folder = none) :
    ∃ during, c.beginFetch folder = (true, during) ∧
      (∃ after, during.finishFetch folder none = (false, after) ∧
        (∀ other, after.flight? other = none) ∧ after.Mirrors s ∧
        ∀ other, after.childNames? other = c.childNames? other) ∧
      ∀ {listed entries}, s.list folder = .ok listed → entries.Perm listed →
        ∃ after, during.finishFetch folder (some entries) = (true, after) ∧
          (∀ other, after.flight? other = none) ∧ after.Mirrors s ∧
          after.children? folder = some listed ∧ ∀ other, (after.childNames? other).isSome ↔
            (c.childNames? other).isSome ∨ other = folder := by
  have claimed : (c.beginFetch folder).1 = true := by
    rw [← Bool.not_eq_false, beginFetch_eq_false_iff, normalize_of_isNormal normal, unlisted, idle]
    simp
  obtain ⟨nodes, flights⟩ := beginFetch_of_claimed _ _ claimed
  obtain ⟨during, begins⟩ : ∃ during, c.beginFetch folder = (true, during) :=
    ⟨_, Prod.ext claimed rfl⟩
  rw [begins, normalize_of_isNormal normal] at flights
  rw [begins] at nodes
  have landed : ∀ other, (during.landed folder).flight? other = none := by
    intro other
    rw [flight?_landed, flights]
    split
    · rfl
    · exact idle other
  have kept : (during.landed folder).Mirrors s := mirrors.of_nodes nodes
  have same : ∀ other, (during.landed folder).childNames? other = c.childNames? other := by
    intro other
    rw [childNames?, childNames?, ← nodes]
    rfl
  refine ⟨during, begins, ⟨_, ?_, landed, kept, same⟩, fun {listed entries} lists shuffled => ?_⟩
  · rw [finishFetch_of_stale during folder (Or.inr rfl), normalize_of_isNormal normal]
  · have fresh : during.flight? (normalize folder) = some false := by
      rw [normalize_of_isNormal normal, flights, if_pos rfl]
    have mirrors' := kept.install sound normal (isListing_of_list sound normal lists) shuffled
    have names : ((during.landed folder).install folder entries).childNames? folder =
        some (Std.TreeSet.ofList (entries.map Entry.name)) := childNames?_install_self _
    obtain ⟨others, told, again⟩ := mirrors'.children?_eq sound normal names
    rw [lists, Except.ok.injEq] at again
    refine ⟨(during.landed folder).install folder entries, ?_, landed, mirrors', again ▸ told,
      fun other => ?_⟩
    · rw [finishFetch_of_fresh during folder fresh, normalize_of_isNormal normal]
    · rw [kept.isSome_childNames?_install sound normal (isListing_of_list sound normal lists)
        shuffled, same]

end Listing

end StoreShell.Cache
