import StoreShell.Proofs.Path
import StoreShell.Store

/-! # Stores are trees of normal paths

Every store that was filled through its operations keeps its objects under normal paths, has the
folder above each of them, and tells each one's name: it is `Sound`. Putting single objects, making
the folders above a path and filling a store keep it so. A sound folder has one listing, which
`IsListing` describes without saying how it is found.
-/

namespace StoreShell.Store

open StoreShell.Path

/-- What holds of a store that is changed by its operations only. -/
structure Sound (s : Store) : Prop where
  normal : ∀ {path o}, s.get? path = some o → IsNormal path
  above : ∀ {path folder o}, s.get? path = some o → parent? path = some folder →
    ∃ o, s.get? folder = some o
  named : ∀ {path o}, s.get? path = some o → o.entry.name = fileName path

/-- Nothing but the root is stored without the folder above it. -/
theorem Sound.exists_above {s : Store} (sound : s.Sound) {path : String} {o : StoredObject}
    (found : s.get? path = some o) (deep : path ≠ root) :
    ∃ folder above, parent? path = some folder ∧ s.get? folder = some above := by
  obtain ⟨folder, parent⟩ := (sound.normal found).exists_parent? deep
  obtain ⟨above, stored⟩ := sound.above found parent
  exact ⟨folder, above, parent, stored⟩

/-- Whether the root is still the folder that an empty store has. -/
def HasRoot (s : Store) : Prop := ∃ o, s.get? root = some o ∧ o.entry = .folder "" 0

theorem get?_empty (path : String) :
    empty.get? path = if root = path then some (.folder "" 0 0) else none := by
  simp only [empty, get?, Std.TreeMap.getElem?_insert, Std.LawfulEqCmp.compare_eq_iff_eq,
    Std.TreeMap.getElem?_emptyc]

theorem hasRoot_empty : HasRoot empty := ⟨_, (get?_empty root).trans (if_pos rfl), rfl⟩

/-- A new store, which has only its root, is sound. -/
theorem sound_empty : Sound empty := by
  have only : ∀ {path o}, empty.get? path = some o → path = root ∧ o = .folder "" 0 0 := by
    intro path o found
    rw [get?_empty, Option.ite_none_right_eq_some, Option.some.injEq] at found
    exact ⟨found.1.symm, found.2.symm⟩
  refine ⟨?_, ?_, ?_⟩
  · intro path o found
    exact (only found).1 ▸ isNormal_root
  · intro path folder o found parent
    rw [(only found).1, parent?_root] at parent
    cases parent
  · intro path o found
    rw [(only found).1, (only found).2, fileName_root]
    rfl

theorem contains_iff {s : Store} {path : String} :
    s.objects.contains path ↔ ∃ o, s.get? path = some o := by
  rw [Std.TreeMap.contains_eq_isSome_getElem?, Option.isSome_iff_exists]
  rfl

theorem contains_eq_false_iff {s : Store} {path : String} :
    s.objects.contains path = false ↔ s.get? path = none := by
  rw [Std.TreeMap.contains_eq_isSome_getElem?, Option.isSome_eq_false_iff, Option.isNone_iff_eq_none]
  rfl

/-- Whatever holds an object holds everything above it. -/
theorem Sound.of_isWithin {s : Store} (sound : s.Sound) {path folder : String} {o : StoredObject}
    (found : s.get? path = some o) (normal : IsNormal folder) (within : isWithin path folder) :
    ∃ o, s.get? folder = some o := by
  refine IsNormal.induct (motive := fun path => ∀ o, s.get? path = some o → isWithin path folder →
    ∃ o, s.get? folder = some o) ?_ ?_ (sound.normal found) o found within
  · intro o found within
    rcases isWithin_iff.mp within with same | below
    · exact ⟨o, same ▸ found⟩
    · exact absurd below (not_isBelow_root normal)
  · intro above name normalAbove named ih o found within
    rcases isWithin_iff.mp within with same | below
    · exact ⟨o, same ▸ found⟩
    · obtain ⟨parent, stored⟩ := sound.above found (parent?_join normalAbove named)
      exact ih parent stored ((isBelow_join_iff normalAbove named normal).mp below)

/-- Nothing lies where there is no object above. -/
theorem Sound.get?_of_isWithin {s : Store} (sound : s.Sound) {path folder : String}
    (missing : s.get? folder = none) (normal : IsNormal folder) (within : isWithin path folder) :
    s.get? path = none := by
  cases found : s.get? path with
  | none => rfl
  | some o =>
    obtain ⟨above, stored⟩ := sound.of_isWithin found normal within
    rw [missing] at stored
    cases stored

/-! ### Putting single objects -/

/-- An object is found where it was put, and nothing else changes. -/
theorem get?_put (s : Store) (path other : String) (o : StoredObject) :
    (s.put path o).2.get? other = if path = other then some o else s.get? other := by
  simp only [put, get?, Std.TreeMap.getElem?_insert, Std.LawfulEqCmp.compare_eq_iff_eq]

theorem get?_putFolder (s : Store) (path other : String) :
    (s.putFolder path).2.get? other =
      if path = other then some (.folder (fileName path) s.nextId s.clock) else s.get? other :=
  get?_put _ path other _

theorem get?_putFile (s : Store) (path other : String) (content : Bytes) :
    (s.putFile path content).2.get? other =
      if path = other then some (.file (fileName path) s.nextId content s.clock)
      else s.get? other :=
  get?_put _ path other _

theorem get?_replace (s : Store) (path other : String) (o : StoredObject) (content : Bytes) :
    (s.replace path o content).2.get? other =
      if path = other then some (o.rewritten content s.clock) else s.get? other :=
  get?_put s path other _

/-- A store stays sound when an object is put where the folder above is. -/
theorem Sound.put {s s' : Store} (sound : s.Sound) {path : String} {o : StoredObject}
    (normal : IsNormal path)
    (effect : ∀ other, s'.get? other = if path = other then some o else s.get? other)
    (named : o.entry.name = fileName path)
    (above : ∀ folder, parent? path = some folder → ∃ o, s.get? folder = some o) :
    s'.Sound := by
  have keeps : ∀ {other}, (∃ o, s.get? other = some o) → ∃ o, s'.get? other = some o := by
    rintro other ⟨old, stored⟩
    rw [effect]
    split
    · exact ⟨o, rfl⟩
    · exact ⟨old, stored⟩
  refine ⟨?_, ?_, ?_⟩
  · intro other found stored
    rw [effect] at stored
    split at stored
    · next same => exact same ▸ normal
    · exact sound.normal stored
  · intro other folder found stored parent
    rw [effect] at stored
    split at stored
    · next same => exact keeps (above folder (same ▸ parent))
    · exact keeps (sound.above stored parent)
  · intro other found stored
    rw [effect] at stored
    split at stored
    · next same => exact Option.some.inj stored ▸ same ▸ named
    · exact sound.named stored

/-! ### Making the folders above -/

/-- The folders to be made for a path are those above it that are missing. -/
theorem mem_missingParents {s : Store} (sound : s.Sound) {path : String} (normal : IsNormal path)
    {depth : Nat} (deep : path.toList.length ≤ depth) (folder : String) :
    folder ∈ s.missingParents path depth ↔
      IsNormal folder ∧ isBelow path folder ∧ s.get? folder = none := by
  induction depth generalizing path with
  | zero =>
    obtain ⟨cs, -, rfl⟩ := normal
    simp [ofComponents] at deep
  | succ depth ih =>
    rcases normal.eq_root_or_join with rfl | ⟨above, name, normalAbove, named, rfl⟩
    · simp only [missingParents, parent?_root, List.not_mem_nil, false_iff]
      rintro ⟨normal', below, -⟩
      exact not_isBelow_root normal' below
    · have shorter := length_lt_length_join above named
      simp only [missingParents, parent?_join normalAbove named]
      split
      · next stored =>
        simp only [List.not_mem_nil, false_iff]
        rintro ⟨normal', below, missing⟩
        obtain ⟨o, found⟩ := contains_iff.mp stored
        rw [isBelow_join_iff normalAbove named normal'] at below
        obtain ⟨o, found⟩ := sound.of_isWithin found normal' below
        rw [missing] at found
        cases found
      · next lacking =>
        have missing := contains_eq_false_iff.mp (Bool.eq_false_iff.mpr lacking)
        rw [List.mem_append, List.mem_singleton, ih normalAbove (by omega)]
        constructor
        · rintro (⟨normal', below, missing'⟩ | rfl)
          · refine ⟨normal', ?_, missing'⟩
            exact (isBelow_join_iff normalAbove named normal').mpr (isWithin_iff.mpr (Or.inr below))
          · exact ⟨normalAbove, isBelow_join_self normalAbove named, missing⟩
        · rintro ⟨normal', below, missing'⟩
          rcases isWithin_iff.mp ((isBelow_join_iff normalAbove named normal').mp below) with
            same | below
          · exact Or.inr same.symm
          · exact Or.inl ⟨normal', below, missing'⟩

private theorem get?_putFolders (s : Store) (folders : List String) (other : String) :
    (other ∉ folders →
      (folders.foldl (fun s folder => (s.putFolder folder).2) s).get? other = s.get? other) ∧
    (other ∈ folders → ∃ id time,
      (folders.foldl (fun s folder => (s.putFolder folder).2) s).get? other =
        some (.folder (fileName other) id time)) := by
  induction folders generalizing s with
  | nil => exact ⟨fun _ => rfl, fun member => absurd member List.not_mem_nil⟩
  | cons folder rest ih =>
    obtain ⟨outside, inside⟩ := ih (s.putFolder folder).2
    rw [List.foldl_cons]
    constructor
    · intro unlisted
      rw [List.mem_cons, not_or] at unlisted
      rw [outside unlisted.2, get?_putFolder, if_neg (Ne.symm unlisted.1)]
    · intro listed
      by_cases later : other ∈ rest
      · exact inside later
      · obtain rfl := (List.mem_cons.mp listed).resolve_right later
        rw [outside later, get?_putFolder, if_pos rfl]
        exact ⟨s.nextId, s.clock, rfl⟩

section EnsureParents

variable {s : Store} {path other : String}

/-- What is there already stays as it is. -/
theorem get?_ensureParents_of_some (sound : s.Sound) (normal : IsNormal path) {o : StoredObject}
    (found : s.get? other = some o) : (s.ensureParents path).get? other = some o := by
  rw [ensureParents, (get?_putFolders s _ other).1, found]
  intro member
  have missing := ((mem_missingParents sound normal (Nat.le_refl _) other).mp member).2.2
  rw [found] at missing
  cases missing

/-- Nothing is made beside the way to the path. -/
theorem get?_ensureParents_of_none (sound : s.Sound) (normal : IsNormal path)
    (missing : s.get? other = none) (aside : ¬ (IsNormal other ∧ isBelow path other)) :
    (s.ensureParents path).get? other = none := by
  rw [ensureParents, (get?_putFolders s _ other).1, missing]
  intro member
  obtain ⟨normal', below, -⟩ := (mem_missingParents sound normal (Nat.le_refl _) other).mp member
  exact aside ⟨normal', below⟩

/-- What is missing on the way to the path is made as a folder. -/
theorem get?_ensureParents_of_isBelow (sound : s.Sound) (normal : IsNormal path)
    (normal' : IsNormal other) (missing : s.get? other = none) (below : isBelow path other) :
    ∃ id time, (s.ensureParents path).get? other = some (.folder (fileName other) id time) :=
  (get?_putFolders s _ other).2
    ((mem_missingParents sound normal (Nat.le_refl _) other).mpr ⟨normal', below, missing⟩)

/-- Whatever lies above a path is there afterwards. -/
theorem exists_get?_ensureParents (sound : s.Sound) (normal : IsNormal path)
    (normal' : IsNormal other) (below : isBelow path other) :
    ∃ o, (s.ensureParents path).get? other = some o := by
  cases found : s.get? other with
  | some o => exact ⟨o, get?_ensureParents_of_some sound normal found⟩
  | none =>
    obtain ⟨_, _, made⟩ := get?_ensureParents_of_isBelow sound normal normal' found below
    exact ⟨_, made⟩

/-- What is there afterwards was there before or is a folder on the way to the path. -/
theorem of_get?_ensureParents (sound : s.Sound) (normal : IsNormal path) {o : StoredObject}
    (found : (s.ensureParents path).get? other = some o) : s.get? other = some o ∨
      (IsNormal other ∧ isBelow path other ∧
        ∃ id time, o = .folder (fileName other) id time) := by
  cases stored : s.get? other with
  | some old =>
    rw [get?_ensureParents_of_some sound normal stored] at found
    exact Or.inl found
  | none =>
    by_cases way : IsNormal other ∧ isBelow path other
    · obtain ⟨id, time, made⟩ := get?_ensureParents_of_isBelow sound normal way.1 stored way.2
      rw [made, Option.some.injEq] at found
      exact Or.inr ⟨way.1, way.2, id, time, found.symm⟩
    · rw [get?_ensureParents_of_none sound normal stored way] at found
      cases found

/-- Making the folders on the way leaves a sound store. -/
theorem Sound.ensureParents (sound : s.Sound) (normal : IsNormal path) :
    (s.ensureParents path).Sound := by
  refine ⟨?_, ?_, ?_⟩
  · intro other o found
    rcases of_get?_ensureParents sound normal found with stored | ⟨normal', -, -⟩
    · exact sound.normal stored
    · exact normal'
  · intro other folder o found parent
    rcases of_get?_ensureParents sound normal found with stored | ⟨normal', below, -⟩
    · obtain ⟨above, stored⟩ := sound.above stored parent
      exact ⟨above, get?_ensureParents_of_some sound normal stored⟩
    · obtain ⟨normalFolder, named, same⟩ := normal'.of_parent? parent
      have inside := isBelow_of_parent? normal' parent
      exact exists_get?_ensureParents sound normal normalFolder
        (isBelow_trans normal normal' normalFolder below inside)
  · intro other o found
    rcases of_get?_ensureParents sound normal found with stored | ⟨-, -, _, _, rfl⟩
    · exact sound.named stored
    · rfl

/-- An object can be put at any path once the folders on the way to it are there. -/
theorem Sound.put_ensureParents {s' : Store} (sound : s.Sound) (normal : IsNormal path)
    {o : StoredObject}
    (effect : ∀ other, s'.get? other =
      if path = other then some o else (s.ensureParents path).get? other)
    (named : o.entry.name = fileName path) : s'.Sound := by
  refine (sound.ensureParents normal).put normal effect named ?_
  intro above parent
  obtain ⟨normalAbove, -, -⟩ := normal.of_parent? parent
  exact exists_get?_ensureParents sound normal normalAbove (isBelow_of_parent? normal parent)

end EnsureParents

/-! ### Listings -/

/-- A folder orders its objects by name as a store orders them by path. -/
theorem compare_join (folder a b : String) :
    compare (join folder a) (join folder b) = .lt ↔ compare a b = .lt := by
  change compareOfLessAndEq _ _ = .lt ↔ compareOfLessAndEq _ _ = .lt
  rw [compareOfLessAndEq_eq_lt, compareOfLessAndEq_eq_lt, join_lt_join_iff]

/-- What a listing of a folder is: the entries of the objects in it, in order of their names. -/
structure IsListing (s : Store) (folder : String) (entries : List Entry) : Prop where
  isFolder : ∃ o, s.get? folder = some o ∧ o.entry.isFolder
  mem : ∀ e, e ∈ entries ↔
    IsName e.name ∧ ∃ o, s.get? (join folder e.name) = some o ∧ o.entry = e
  ordered : entries.Pairwise fun a b => compare a.name b.name = .lt

private theorem isListing_filter {s : Store} (sound : s.Sound) {folder : String}
    (normal : IsNormal folder) {o : StoredObject} (found : s.get? folder = some o)
    (folderly : o.entry.isFolder) :
    IsListing s folder ((s.objects.toList.filter fun (p, _) => parent? p == some folder).map
      fun (_, o) => o.entry) := by
  have inside : ∀ x, x ∈ s.objects.toList.filter (fun (p, _) => parent? p == some folder) →
      s.get? x.1 = some x.2 ∧ IsName x.2.entry.name ∧ x.1 = join folder x.2.entry.name := by
    rintro ⟨p, o⟩ member
    rw [List.mem_filter, Std.TreeMap.mem_toList_iff_getElem?_eq_some, beq_iff_eq] at member
    obtain ⟨stored, parent⟩ := member
    obtain ⟨-, named, same⟩ := (sound.normal stored).of_parent? parent
    have called := sound.named (s := s) stored
    dsimp only
    rw [called]
    exact ⟨stored, named, same.symm⟩
  refine ⟨⟨o, found, folderly⟩, ?_, ?_⟩
  · intro e
    rw [List.mem_map]
    constructor
    · rintro ⟨x, member, rfl⟩
      obtain ⟨stored, named, place⟩ := inside x member
      exact ⟨named, x.2, place ▸ stored, rfl⟩
    · rintro ⟨named, o, stored, rfl⟩
      refine ⟨(join folder o.entry.name, o), ?_, rfl⟩
      rw [List.mem_filter, Std.TreeMap.mem_toList_iff_getElem?_eq_some, beq_iff_eq]
      exact ⟨stored, parent?_join normal named⟩
  · rw [List.pairwise_map]
    refine List.Pairwise.imp_of_mem ?_
      (List.Pairwise.filter _ Std.TreeMap.ordered_keys_toList)
    intro x y member member' before
    rw [(inside x member).2.2, (inside y member').2.2, compare_join] at before
    exact before

@[simp] theorem list_normalize (s : Store) (folder : String) :
    s.list (normalize folder) = s.list folder := by
  rw [list, list, normalize_normalize]

/-- A folder that exists can be listed. -/
theorem exists_isListing {s : Store} (sound : s.Sound) {folder : String} (normal : IsNormal folder)
    {o : StoredObject} (found : s.get? folder = some o) (folderly : o.entry.isFolder) :
    ∃ entries, s.list folder = .ok entries ∧ IsListing s folder entries := by
  refine ⟨_, ?_, isListing_filter sound normal found folderly⟩
  simp only [list, normalize_of_isNormal normal, found, if_pos folderly]

/-- What a store lists is a listing of the folder. -/
theorem isListing_of_list {s : Store} (sound : s.Sound) {folder : String} (normal : IsNormal folder)
    {entries : List Entry} (listed : s.list folder = .ok entries) : IsListing s folder entries := by
  cases found : s.get? folder with
  | none =>
    simp only [list, normalize_of_isNormal normal, found] at listed
    cases listed
  | some o =>
    by_cases folderly : o.entry.isFolder
    · obtain ⟨others, listed', isListing⟩ := exists_isListing sound normal found folderly
      rw [listed, Except.ok.injEq] at listed'
      exact listed' ▸ isListing
    · simp only [list, normalize_of_isNormal normal, found, if_neg folderly] at listed
      cases listed

/-- A folder has one listing. -/
theorem IsListing.unique {s : Store} {folder : String} {first second : List Entry}
    (one : IsListing s folder first) (other : IsListing s folder second) : first = second := by
  have distinct : ∀ {entries}, IsListing s folder entries → entries.Nodup := by
    intro entries listing
    refine listing.ordered.imp ?_
    rintro a b before rfl
    rw [Std.ReflOrd.compare_self] at before
    cases before
  refine List.Perm.eq_of_pairwise ?_ one.ordered other.ordered ?_
  · intro a b _ _ before after
    rw [Std.OrientedOrd.eq_swap, before] at after
    cases after
  · refine (List.perm_ext_iff_of_nodup (distinct one) (distinct other)).mpr fun e => ?_
    rw [one.mem, other.mem]

section IsListing

variable {s : Store} {folder : String} {entries : List Entry}

/-- Objects in a folder are listed under names that a folder can have for them. -/
theorem IsListing.named (listing : IsListing s folder entries) :
    ∀ e ∈ entries, IsName e.name :=
  fun e member => ((listing.mem e).mp member).1

/-- No two objects in a folder have one name. -/
theorem IsListing.distinct (listing : IsListing s folder entries) :
    entries.Pairwise fun a b => a.name ≠ b.name := by
  refine listing.ordered.imp ?_
  intro a b before same
  rw [same, Std.ReflOrd.compare_self] at before
  cases before

/-- The names in a listing are those of the objects in the folder. -/
theorem IsListing.mem_names (listing : IsListing s folder entries) (sound : s.Sound)
    (normal : IsNormal folder) (name : String) :
    name ∈ entries.map Entry.name ↔ IsName name ∧ ∃ o, s.get? (join folder name) = some o := by
  rw [List.mem_map]
  constructor
  · rintro ⟨e, member, rfl⟩
    obtain ⟨named, o, stored, -⟩ := (listing.mem e).mp member
    exact ⟨named, o, stored⟩
  · rintro ⟨named, o, stored⟩
    have called := sound.named stored
    rw [fileName_join normal named] at called
    exact ⟨o.entry, (listing.mem _).mpr (called.symm ▸ ⟨named, o, stored, rfl⟩), called⟩

end IsListing

/-! ### Filling a store -/

/-- A store stays sound when a file is inserted, whatever is inserted where. -/
theorem sound_insertFile {s : Store} (sound : s.Sound) (path : String) (content : Bytes) :
    (s.insertFile path content).Sound := by
  have effect := (get?_putFile (s.ensureParents (normalize path)) (normalize path) · content)
  exact sound.put_ensureParents (isNormal_normalize path) effect rfl

theorem sound_insertFolder {s : Store} (sound : s.Sound) (path : String) :
    (s.insertFolder path).Sound := by
  have effect := get?_putFolder (s.ensureParents (normalize path)) (normalize path)
  rw [insertFolder]
  split
  · exact sound.ensureParents (isNormal_normalize path)
  · exact sound.put_ensureParents (isNormal_normalize path) effect rfl

end StoreShell.Store
