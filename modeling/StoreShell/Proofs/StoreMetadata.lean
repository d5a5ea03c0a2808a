import Mathlib.Data.String.Basic
import StoreShell.Proofs.StoreTrees

/-! # What a store tells about its objects

A store tells the name, the number, the size and the digest of each object, and it sets them at
different times: a new object gets a number, a file that is written over keeps it, and an object
that moves gets a name. `accurate_after` says that they are right whatever was done to the store, be it
filled, changed by a client or protected. Numbers have no upper bound here.
-/

namespace StoreShell

/-- Whether an object is told about as its content is. -/
structure StoredObject.Truthful (o : StoredObject) : Prop where
  file : o.entry.isFolder = false → o.entry.size = o.content.length ∧
    o.entry.hash = some (Text.Hex.encode (Sha256.digest o.content))
  folder : o.entry.isFolder → o.entry.size = 0 ∧ o.entry.hash = none ∧ o.content = []

namespace Store

open StoreShell.Path

/-- Whether a store tells the truth about the contents of its objects and numbers them apart. -/
structure Recorded (s : Store) : Prop where
  truthful : ∀ {path o}, s.get? path = some o → o.Truthful
  bounded : ∀ {path o}, s.get? path = some o → o.entry.id < s.nextId
  apart : ∀ {path other o o'}, s.get? path = some o → s.get? other = some o' →
    o.entry.id = o'.entry.id → path = other

variable {s s' : Store} {path source target : String} {content : Bytes} {o : StoredObject}
  {e : Entry}

/-- A folder tells no size and no hash, and holds no content. -/
theorem truthful_folder (name : String) (id time : Nat) :
    (StoredObject.folder name id time).Truthful :=
  ⟨nofun, fun _ => ⟨rfl, rfl, rfl⟩⟩

/-- A file tells the size and the hash of what it holds. -/
theorem truthful_file (name : String) (id : Nat) (content : Bytes) (created modified : Nat) :
    StoredObject.Truthful ⟨.file name id content, content, created, modified⟩ :=
  ⟨fun _ => ⟨rfl, rfl⟩, nofun⟩

/-- An object may be called otherwise. -/
theorem truthful_renamed (truthful : o.Truthful) (name : String) (time : Nat) :
    StoredObject.Truthful { o with entry.name := name, modified := time } :=
  ⟨fun file => truthful.file file, fun folderly => truthful.folder folderly⟩

theorem recorded_empty : Recorded empty := by
  have only : ∀ {path o}, empty.get? path = some o → root = path ∧ .folder "" 0 0 = o := by
    intro path o found
    rwa [get?_empty, Option.ite_none_right_eq_some, Option.some.injEq] at found
  refine ⟨fun found => (only found).2 ▸ truthful_folder "" 0 0, fun found => ?_, ?_⟩
  · exact (only found).2 ▸ Nat.one_pos
  · exact fun found found' _ => (only found).1.symm.trans (only found').1

/-- An object may be put under a number that no object of another path has. -/
theorem Recorded.put (recorded : s.Recorded)
    (effect : ∀ other, s'.get? other = if path = other then some o else s.get? other)
    (truthful : o.Truthful) (bounded : o.entry.id < s'.nextId) (more : s.nextId ≤ s'.nextId)
    (own : ∀ {other old}, s.get? other = some old → old.entry.id = o.entry.id → other = path) :
    s'.Recorded := by
  refine ⟨fun {other new} found => ?_, fun {other new} found => ?_,
    fun {first second old new} found found' same => ?_⟩
  · rw [effect] at found
    split at found
    · exact Option.some.inj found ▸ truthful
    · exact recorded.truthful found
  · rw [effect] at found
    split at found
    · exact Option.some.inj found ▸ bounded
    · exact Nat.lt_of_lt_of_le (recorded.bounded found) more
  · rw [effect] at found found'
    split at found
    · next here =>
      cases found
      split at found'
      · next here' => exact here.symm.trans here'
      · exact here.symm.trans (own found' same.symm).symm
    · split at found'
      · next here' =>
        cases found'
        exact (own found same).trans here'
      · exact recorded.apart found found' same

/-- The next number is free. -/
theorem Recorded.fresh (recorded : s.Recorded) {id : Nat} (next : s.nextId = id)
    {other : String} {old : StoredObject} (found : s.get? other = some old)
    (same : old.entry.id = id) : other = path := by
  have smaller := recorded.bounded found
  omega

theorem Recorded.putFolder (recorded : s.Recorded) (path : String) :
    (s.putFolder path).2.Recorded :=
  recorded.put (get?_putFolder s path) (truthful_folder _ _ _) (Nat.lt_succ_self _) (Nat.le_succ _)
    (recorded.fresh rfl)

/-- A file is put under the next number, with the time on the clock. -/
theorem Recorded.putFile (recorded : s.Recorded) (path : String) (content : Bytes) :
    (s.putFile path content).2.Recorded :=
  recorded.put (get?_putFile s path · content) (truthful_file _ _ _ _ _) (Nat.lt_succ_self _)
    (Nat.le_succ _) (recorded.fresh rfl)

/-- Each folder that is made on the way takes a number of its own. -/
theorem Recorded.ensureParents (recorded : s.Recorded) (path : String) :
    (s.ensureParents path).Recorded := by
  rw [Store.ensureParents]
  generalize s.missingParents path path.toList.length = folders
  induction folders generalizing s with
  | nil => exact recorded
  | cons folder rest ih => exact ih (recorded.putFolder folder)

theorem Recorded.putsFile (recorded : s.Recorded) (puts : PutsFile s path content e s') :
    s'.Recorded := by
  rcases puts.way with ⟨-, put⟩ | ⟨o, found, -, put⟩
  · cases put
    exact recorded.putFile path content
  · cases put
    have smaller : o.entry.id < s.nextId := recorded.bounded found
    exact recorded.put (get?_replace s path · o content) (truthful_file _ _ _ _ _) smaller
      (Nat.le_refl _) fun found' same => recorded.apart found' found same

theorem Recorded.putsFolder (recorded : s.Recorded) {parents : Bool}
    (puts : PutsFolder s path parents e s') : s'.Recorded := by
  cases puts with
  | present _ _ => exact recorded
  | alone _ _ put => exact put ▸ recorded.putFolder path
  | along _ put => exact put ▸ (recorded.ensureParents path).putFolder path

/-- Objects that are found elsewhere afterwards, each in one place, keep their numbers. -/
theorem Recorded.of_origin (recorded : s.Recorded) (next : s'.nextId = s.nextId)
    (put : String → String) (origin : ∀ {other new}, s'.get? other = some new →
      ∃ path old, s.get? path = some old ∧ put path = other ∧ new.entry.id = old.entry.id ∧
        (old.Truthful → new.Truthful)) : s'.Recorded := by
  refine ⟨fun found => ?_, fun found => ?_, fun found found' same => ?_⟩
  · obtain ⟨_, old, stored, -, -, keeps⟩ := origin found
    exact keeps (recorded.truthful stored)
  · obtain ⟨_, old, stored, -, number, -⟩ := origin found
    rw [number, next]
    exact recorded.bounded stored
  · obtain ⟨path, old, stored, rfl, number, -⟩ := origin found
    obtain ⟨path', old', stored', rfl, number', -⟩ := origin found'
    rw [recorded.apart stored stored' (number.symm.trans (same.trans number'))]

theorem Recorded.remove (recorded : s.Recorded) {recursive : Bool}
    (done : s.remove path recursive = .ok s') : s'.Recorded := by
  refine recorded.of_origin (nextId_remove done) id fun {other new} found => ?_
  rw [(removes_remove done).effect] at found
  split at found
  · cases found
  · exact ⟨other, new, found, rfl, rfl, id⟩

/-- A move gives no numbers and takes none. -/
theorem Recorded.rename (recorded : s.Recorded) (sound : s.Sound)
    (done : s.rename source target = .ok (e, s')) : s'.Recorded := by
  refine recorded.of_origin (nextId_rename sound done)
    (place (normalize source) (normalize target)) fun {other new} found => ?_
  obtain ⟨path, old, stored, there, rfl⟩ := (get?_rename_eq_some_iff sound done).mp found
  refine ⟨path, old, stored, there, ?_⟩
  rw [movedObject]
  split
  · exact ⟨rfl, fun truthful => truthful_renamed truthful _ _⟩
  · exact ⟨rfl, id⟩

theorem Built.recorded (built : s.Built) : s.Recorded := by
  induction built with
  | empty => exact recorded_empty
  | insertFile path content _ ih => exact (ih.ensureParents _).putFile _ content
  | insertFolder path _ ih =>
    rw [Store.insertFolder]
    split
    · exact ih.ensureParents _
    · exact (ih.ensureParents _).putFolder _
  | protect readOnly _ ih => exact ⟨ih.truthful, ih.bounded, ih.apart⟩
  | write _ done ih => exact ih.putsFile (putsFile_write done)
  | append _ done ih => exact ih.putsFile (putsFile_append done)
  | makeFolder _ done ih => exact ih.putsFolder (putsFolder_makeFolder done)
  | remove _ done ih => exact ih.remove done
  | rename built done ih => exact ih.rename built.sound done

/-! ### Everything that a store tells -/

/-- Whether all that a store tells about its objects is right. Folders that are listed may be
spelled in any way. -/
structure Accurate (s : Store) : Prop where
  normal : ∀ {path o}, s.get? path = some o → normalize path = path
  named : ∀ {path o}, s.get? path = some o → o.entry.name = fileName path
  above : ∀ {path o}, s.get? path = some o → path ≠ root →
    ∃ folder above, parent? path = some folder ∧ s.get? folder = some above
  apart : ∀ {path other o o'}, s.get? path = some o → s.get? other = some o' →
    o.entry.id = o'.entry.id → path = other
  bounded : ∀ {path o}, s.get? path = some o → o.entry.id < s.nextId
  file : ∀ {path o}, s.get? path = some o → o.entry.isFolder = false →
    o.entry.size = o.content.length ∧
      o.entry.hash = some (Text.Hex.encode (Sha256.digest o.content))
  folder : ∀ {path o}, s.get? path = some o → o.entry.isFolder →
    o.entry.size = 0 ∧ o.entry.hash = none ∧ o.content = []
  /-- The listing of a folder has the entries of the objects in it, in the order of their names, no
  name twice. -/
  listing : ∀ {folder o}, s.get? (normalize folder) = some o → o.entry.isFolder →
    ∃ entries, s.list folder = .ok entries ∧ (entries.map Entry.name).Pairwise (· < ·) ∧
      ∀ e, e ∈ entries ↔ ∃ path o, s.get? path = some o ∧ parent? path = some (normalize folder) ∧
        o.entry = e

/-- A folder is listed with its objects in the order of their names. -/
theorem Sound.exists_listing (sound : s.Sound) {folder : String}
    (found : s.get? (normalize folder) = some o) (folderly : o.entry.isFolder) :
    ∃ entries, s.list folder = .ok entries ∧ (entries.map Entry.name).Pairwise (· < ·) ∧
      ∀ e, e ∈ entries ↔ ∃ path o, s.get? path = some o ∧ parent? path = some (normalize folder) ∧
        o.entry = e := by
  have normal := isNormal_normalize folder
  obtain ⟨entries, listed, listing⟩ := exists_isListing sound normal found folderly
  rw [list_normalize] at listed
  refine ⟨entries, listed, ?_, fun e => ?_⟩
  · rw [List.pairwise_map]
    exact listing.ordered.imp compare_lt_iff_lt.mp
  · rw [listing.mem]
    constructor
    · rintro ⟨named, o, stored, rfl⟩
      exact ⟨_, o, stored, parent?_join normal named, rfl⟩
    · rintro ⟨path, o, stored, parent, rfl⟩
      obtain ⟨-, named, same⟩ := (sound.normal stored).of_parent? parent
      rw [sound.named stored, same]
      exact ⟨named, o, stored, rfl⟩

/-- Whatever has been done to a store since it was new, its records are accurate. -/
theorem Built.accurate (built : s.Built) : s.Accurate where
  normal found := normalize_of_isNormal (built.sound.normal found)
  named := built.sound.named
  above := built.sound.exists_above
  apart := built.recorded.apart
  bounded := built.recorded.bounded
  file found := (built.recorded.truthful found).file
  folder found := (built.recorded.truthful found).folder
  listing := built.sound.exists_listing

/-- What can be done to a store: it is filled, it is protected from changes or opened to them, or a
client asks for something. -/
inductive Change where
  | insertFile (path : String) (content : Bytes)
  | insertFolder (path : String)
  | protect (readOnly : Bool)
  | request (r : Request)

/-- The store that a change leaves. A request that is refused changes nothing. -/
def Change.apply (s : Store) : Change → Store
  | insertFile path content => s.insertFile path content
  | insertFolder path => s.insertFolder path
  | protect readOnly => { s with readOnly }
  | request r => r.apply s

/-- A change of a store that was built leaves one that was built. -/
theorem Built.change (built : s.Built) (change : Change) : (change.apply s).Built := by
  cases change with
  | insertFile path content => exact built.insertFile path content
  | insertFolder path => exact built.insertFolder path
  | protect readOnly => exact built.protect readOnly
  | request r => exact built.apply r

/-- By induction on the changes. -/
theorem Built.changes (built : s.Built) (changes : List Change) :
    (changes.foldl Change.apply s).Built := by
  induction changes generalizing s with
  | nil => exact built
  | cons change rest ih => exact ih (built.change change)

/-- Whatever is done to a new store, all that it tells about its objects is right. -/
theorem accurate_after (changes : List Change) : (changes.foldl Change.apply empty).Accurate :=
  (Built.empty.changes changes).accurate

end Store

end StoreShell
