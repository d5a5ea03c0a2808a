import StoreShell.Proofs.Store
import StoreShell.Proofs.StoreEdits

/-! # What the changes of a client do to a store

Each change that a client may ask for is described once by what it does to lookups if it succeeds:
`WritesFile`, `MakesFolder`, `Removes` and `Moves`. All of them keep a store sound and its root in
place. `PutsFile` and `PutsFolder` say in which way files and folders are put there, and
`get?_rename_eq_some_iff` where each object is after a move. Later modules use these descriptions and
not the operations. `Built` are the stores that come about.
-/

namespace StoreShell.Store

open StoreShell.Path

/-- Stores that come about from the empty one. -/
inductive Built : Store → Prop where
  | empty : Built .empty
  | insertFile {s} (path content) : Built s → Built (s.insertFile path content)
  | insertFolder {s} (path) : Built s → Built (s.insertFolder path)
  | protect {s} (readOnly) : Built s → Built { s with readOnly }
  | write {s s' path content e} : Built s → s.write path content = .ok (e, s') → Built s'
  | append {s s' path content e} : Built s → s.append path content = .ok (e, s') → Built s'
  | makeFolder {s s' path parents e} : Built s → s.makeFolder path parents = .ok (e, s') → Built s'
  | remove {s s' path recursive} : Built s → s.remove path recursive = .ok s' → Built s'
  | rename {s s' source target e} : Built s → s.rename source target = .ok (e, s') → Built s'

variable {s s' : Store} {path source target : String} {content : Bytes} {e : Entry}

/-- How a file is put at a path: in a folder that exists, either anew or over the file that is there. -/
structure PutsFile (s : Store) (path : String) (content : Bytes) (e : Entry) (s' : Store) :
    Prop where
  folder : ∀ above, parent? path = some above → ∃ o, s.get? above = some o ∧ o.entry.isFolder
  way : (s.get? path = none ∧ s.putFile path content = (e, s')) ∨
    ∃ o, s.get? path = some o ∧ o.entry.isFolder = false ∧ s.replace path o content = (e, s')

private theorem putsFile_storeFile (done : (Edit.storeFile path content).apply s = (.ok e, s')) :
    PutsFile s path content e s' := by
  obtain ⟨folder, done⟩ := Edit.of_checkParent done
  have done := Edit.of_get done
  refine ⟨folder, ?_⟩
  cases found : s.get? path with
  | none =>
    rw [found] at done
    exact Or.inl ⟨rfl, Edit.of_modifyGet done⟩
  | some o =>
    rw [found] at done
    obtain ⟨file, done⟩ := Edit.of_check done
    exact Or.inr ⟨o, rfl, (Bool.not_eq_true' _).mp file, Edit.of_modifyGet done⟩

/-- A write that succeeds puts a file with the content at the path. -/
theorem putsFile_write (done : s.write path content = .ok (e, s')) :
    PutsFile s (normalize path) content e s' :=
  putsFile_storeFile (Edit.of_checkWritable (Edit.result_eq_ok_iff.mp done)).2

/-- Adding to a file puts it there with what it holds already in front. -/
theorem putsFile_append (done : s.append path content = .ok (e, s')) :
    PutsFile s (normalize path) ((s.contents? path).getD [] ++ content) e s' := by
  have done := Edit.of_get (Edit.of_checkWritable (Edit.result_eq_ok_iff.mp done)).2
  cases found : s.get? (normalize path) with
  | none =>
    rw [found] at done
    have before : s.contents? path = none := by simp [contents?, found]
    rw [before, Option.getD_none, List.nil_append]
    exact putsFile_storeFile done
  | some o =>
    rw [found] at done
    obtain ⟨file, done⟩ := Edit.of_check done
    have before : s.contents? path = some o.content := by
      simp [contents?, found, (Bool.not_eq_true' _).mp file]
    rw [before, Option.getD_some]
    exact putsFile_storeFile done

/-- What writing a file does: it puts a file where no folder is, in a folder that exists. -/
structure WritesFile (s s' : Store) (path : String) (e : Entry) : Prop where
  normal : IsNormal path
  file : e.isFolder = false
  before : ∀ o, s.get? path = some o → o.entry.isFolder = false
  folder : ∀ above, parent? path = some above → ∃ o, s.get? above = some o ∧ o.entry.isFolder
  effect : ∃ o, o.entry = e ∧ (s.Sound → e.name = fileName path) ∧
    ∀ other, s'.get? other = if path = other then some o else s.get? other

private theorem PutsFile.writesFile (puts : PutsFile s path content e s') (normal : IsNormal path) :
    WritesFile s s' path e := by
  rcases puts.way with ⟨missing, put⟩ | ⟨o, found, file, put⟩
  · cases put
    refine ⟨normal, rfl, ?_, puts.folder, ?_⟩
    · intro o stored
      rw [missing] at stored
      cases stored
    · exact ⟨_, rfl, fun _ => rfl, fun other => get?_putFile s path other content⟩
  · cases put
    refine ⟨normal, rfl, ?_, puts.folder, ?_⟩
    · intro old stored
      rw [found, Option.some.injEq] at stored
      exact stored ▸ file
    · have named : s.Sound → o.entry.name = fileName path := fun sound => sound.named found
      exact ⟨_, rfl, named, fun other => get?_replace s path other o content⟩

theorem writesFile_write (done : s.write path content = .ok (e, s')) :
    WritesFile s s' (normalize path) e :=
  (putsFile_write done).writesFile (isNormal_normalize path)

/-- What is added to a file is a change of this file only. -/
theorem writesFile_append (done : s.append path content = .ok (e, s')) :
    WritesFile s s' (normalize path) e :=
  (putsFile_append done).writesFile (isNormal_normalize path)

/-- Writing a file changes what it holds, and what no other file holds. -/
theorem PutsFile.contents?_eq (puts : PutsFile s path content e s') (other : String) :
    s'.contents? other = if path = normalize other then some content else s.contents? other := by
  have placed : ∀ new : StoredObject, new.entry.isFolder = false → new.content = content →
      (∀ other, s'.get? other = if path = other then some new else s.get? other) →
      s'.contents? other = if path = normalize other then some content else s.contents? other := by
    intro new file same effect
    rw [contents?, effect]
    split
    · simp [file, same]
    · rfl
  rcases puts.way with ⟨-, put⟩ | ⟨o, -, -, put⟩
  · cases put
    exact placed _ rfl rfl fun other => get?_putFile s path other content
  · cases put
    exact placed _ rfl rfl fun other => get?_replace s path other o content

/-- A file that was written holds what was written, and other files what they held. -/
theorem contents?_write (done : s.write path content = .ok (e, s')) (other : String) :
    s'.contents? other =
      if normalize path = normalize other then some content else s.contents? other :=
  (putsFile_write done).contents?_eq other

/-- A file that was appended to holds the new content behind the old one. -/
theorem contents?_append (done : s.append path content = .ok (e, s')) (other : String) :
    s'.contents? other = if normalize path = normalize other then
      some ((s.contents? path).getD [] ++ content) else s.contents? other :=
  (putsFile_append done).contents?_eq other

/-- Writing a file leaves a sound store. -/
theorem WritesFile.sound (writes : WritesFile s s' path e) (sound : s.Sound) : s'.Sound := by
  obtain ⟨o, same, named, effect⟩ := writes.effect
  refine sound.put writes.normal effect (same ▸ named sound) ?_
  intro above parent
  obtain ⟨o, found, -⟩ := writes.folder above parent
  exact ⟨o, found⟩

/-- The root is no file, so writing one leaves it. -/
theorem WritesFile.hasRoot (writes : WritesFile s s' path e) (kept : s.HasRoot) : s'.HasRoot := by
  obtain ⟨o, found, same⟩ := kept
  obtain ⟨new, -, -, effect⟩ := writes.effect
  refine ⟨o, ?_, same⟩
  rw [effect, if_neg, found]
  rintro rfl
  have file := writes.before o found
  rw [same] at file
  cases file

/-- How a folder is made: it is there already, it is put in the folder above, or it is put below the
folders that are made for it. -/
inductive PutsFolder (s : Store) (path : String) : Bool → Entry → Store → Prop where
  | present {o : StoredObject} : s.get? path = some o → o.entry.isFolder →
      PutsFolder s path true o.entry s
  | alone {made : Entry × Store} : s.get? path = none →
      (∀ above, parent? path = some above → ∃ o, s.get? above = some o ∧ o.entry.isFolder) →
      s.putFolder path = made → PutsFolder s path false made.1 made.2
  | along {made : Entry × Store} : s.get? path = none →
      (s.ensureParents path).putFolder path = made → PutsFolder s path true made.1 made.2

theorem putsFolder_makeFolder {parents : Bool} (done : s.makeFolder path parents = .ok (e, s')) :
    PutsFolder s (normalize path) parents e s' := by
  have done := Edit.of_get (Edit.of_checkWritable (Edit.result_eq_ok_iff.mp done)).2
  generalize normalize path = path at done ⊢
  cases found : s.get? path with
  | some o =>
    rw [found] at done
    obtain ⟨fits, done⟩ := Edit.of_check done
    rw [Bool.and_eq_true] at fits
    cases done
    exact fits.1 ▸ .present found fits.2
  | none =>
    rw [found] at done
    cases parents with
    | true =>
      have put : (s.ensureParents path).putFolder path = (e, s') := by
        rw [if_pos rfl, Edit.apply_bind, Edit.apply_modify] at done
        exact Edit.of_modifyGet done
      exact @PutsFolder.along s path (e, s') found put
    | false =>
      rw [if_neg Bool.false_ne_true] at done
      obtain ⟨folder, done⟩ := Edit.of_checkParent done
      exact @PutsFolder.alone s path (e, s') found folder (Edit.of_modifyGet done)

/-- What making a folder does: everything stays, and what is new apart from the folder are folders
above it, which are made only if wanted. -/
structure MakesFolder (s s' : Store) (path : String) (parents : Bool) (e : Entry) : Prop where
  normal : IsNormal path
  folder : e.isFolder
  here : ∃ o, s'.get? path = some o ∧ o.entry = e
  kept : ∀ {other o}, s.get? other = some o → s'.get? other = some o
  fresh : ∀ {other o}, other ≠ path → s'.get? other = some o → s.get? other = none →
    parents ∧ isBelow path other
  sound : s'.Sound

/-- Making a folder that succeeds makes it, and with `parents` whatever is missing on the way. -/
theorem makesFolder_makeFolder {parents : Bool} (sound : s.Sound)
    (done : s.makeFolder path parents = .ok (e, s')) :
    MakesFolder s s' (normalize path) parents e := by
  have normal := isNormal_normalize path
  have puts := putsFolder_makeFolder done
  clear done
  generalize normalize path = path at normal puts ⊢
  cases puts with
  | @present o found folderly =>
    refine ⟨normal, folderly, ⟨o, found, rfl⟩, id, ?_, sound⟩
    intro other o _ stored missing
    rw [missing] at stored
    cases stored
  | along found put =>
    cases put
    have effect := get?_putFolder (s.ensureParents path) path
    refine ⟨normal, rfl, ⟨_, (effect path).trans (if_pos rfl), rfl⟩, ?_, ?_, ?_⟩
    · intro other o stored
      rw [effect, if_neg, get?_ensureParents_of_some sound normal stored]
      rintro rfl
      rw [found] at stored
      cases stored
    · intro other o aside stored missing
      rw [effect, if_neg (Ne.symm aside)] at stored
      refine ⟨rfl, ?_⟩
      by_cases below : IsNormal other ∧ isBelow path other
      · exact below.2
      · rw [get?_ensureParents_of_none sound normal missing below] at stored
        cases stored
    · exact sound.put_ensureParents normal effect rfl
  | alone found folder put =>
    cases put
    have effect := get?_putFolder s path
    refine ⟨normal, rfl, ⟨_, (effect path).trans (if_pos rfl), rfl⟩, ?_, ?_, ?_⟩
    · intro other o stored
      rw [effect, if_neg, stored]
      rintro rfl
      rw [found] at stored
      cases stored
    · intro other o aside stored missing
      rw [effect, if_neg (Ne.symm aside), missing] at stored
      cases stored
    · refine sound.put normal effect rfl ?_
      intro above parent
      obtain ⟨o, stored, -⟩ := folder above parent
      exact ⟨o, stored⟩

theorem MakesFolder.hasRoot {parents : Bool} (makes : MakesFolder s s' path parents e)
    (kept : s.HasRoot) : s'.HasRoot := by
  obtain ⟨o, found, same⟩ := kept
  exact ⟨o, makes.kept found, same⟩

/-- What is left of a store without an object and everything below it. -/
def without (s : Store) (path : String) : Store :=
  { s with objects := s.objects.filter fun p _ => !isWithin p path }

/-- An object is taken out with everything below it, and the rest stays. -/
theorem get?_without (s : Store) (path other : String) :
    (s.without path).get? other = if isWithin other path then none else s.get? other := by
  rw [without, get?, Std.TreeMap.getElem?_filter', get?]
  cases s.objects[other]? with
  | none => simp
  | some o => cases isWithin other path <;> simp

/-- What removing an object does. -/
structure Removes (s s' : Store) (path : String) : Prop where
  normal : IsNormal path
  deep : path ≠ root
  effect : ∀ other, s'.get? other = if isWithin other path then none else s.get? other

private theorem remove_eq {recursive : Bool} (done : s.remove path recursive = .ok s') :
    normalize path ≠ root ∧ s' = s.without (normalize path) := by
  rw [remove] at done
  cases answered : (Edit.remove path recursive).result s with
  | error failure =>
    rw [answered] at done
    cases done
  | ok answer =>
    obtain ⟨_, left⟩ := answer
    rw [answered] at done
    cases done
    have done := (Edit.of_checkWritable (Edit.result_eq_ok_iff.mp answered)).2
    obtain ⟨deep, done⟩ := Edit.of_check done
    have done := (Edit.of_check (Edit.of_check (Edit.of_get done)).2).2
    rw [Edit.apply_modify] at done
    cases done
    exact ⟨of_decide_eq_true deep, rfl⟩

/-- A removal that succeeds takes an object out with everything below it. -/
theorem removes_remove {recursive : Bool} (done : s.remove path recursive = .ok s') :
    Removes s s' (normalize path) := by
  obtain ⟨deep, rfl⟩ := remove_eq done
  exact ⟨isNormal_normalize path, deep, get?_without s (normalize path)⟩

/-- Numbers that were given are not given again after a removal. -/
theorem nextId_remove {recursive : Bool} (done : s.remove path recursive = .ok s') :
    s'.nextId = s.nextId := by
  obtain ⟨-, rfl⟩ := remove_eq done
  rfl

theorem readOnly_remove {recursive : Bool} (done : s.remove path recursive = .ok s') :
    s'.readOnly = s.readOnly := by
  obtain ⟨-, rfl⟩ := remove_eq done
  rfl

theorem Removes.sound (removes : Removes s s' path) (sound : s.Sound) : s'.Sound := by
  have origin : ∀ {other o}, s'.get? other = some o →
      ¬ isWithin other path ∧ s.get? other = some o := by
    intro other o found
    rw [removes.effect] at found
    split at found
    · cases found
    · next outside => exact ⟨outside, found⟩
  refine ⟨fun found => sound.normal (origin found).2, ?_, fun found => sound.named (origin found).2⟩
  intro other folder o found parent
  obtain ⟨outside, stored⟩ := origin found
  have normal := sound.normal stored
  rw [removes.effect, if_neg]
  · exact sound.above stored parent
  · intro within
    exact outside (isWithin_iff.mpr
      (Or.inr ((isBelow_iff_of_parent? normal parent removes.normal).mpr within)))

theorem Removes.hasRoot (removes : Removes s s' path) (kept : s.HasRoot) : s'.HasRoot := by
  obtain ⟨o, found, same⟩ := kept
  refine ⟨o, ?_, same⟩
  rw [removes.effect, if_neg, found]
  intro within
  exact ne_root_of_isWithin removes.normal removes.deep within rfl

section MoveOne

variable {time : Nat} {other : String} {o : StoredObject} {moved : Option Entry × Store}

private theorem get?_moveOne (found : moved.2.get? path = some o) (other : String) :
    (moveOne time source target moved path).2.get? other =
      if movedPath source target path = other then some (movedObject time source target path o)
      else if path = other then none else moved.2.get? other := by
  rw [moveOne, found]
  simp only [get?, Std.TreeMap.getElem?_insert, Std.TreeMap.getElem?_erase,
    Std.LawfulEqCmp.compare_eq_iff_eq]

/-- A place that nothing is moved to is left alone unless the object there is moved away. -/
theorem get?_foldl_moveOne_of_ne (paths : List String)
    (aside : ∀ path ∈ paths, movedPath source target path ≠ other) :
    (paths.foldl (moveOne time source target) moved).2.get? other =
      if other ∈ paths then none else moved.2.get? other := by
  induction paths generalizing moved with
  | nil => exact (if_neg List.not_mem_nil).symm
  | cons path rest ih =>
    rw [List.foldl_cons, ih fun later member => aside later (List.mem_cons_of_mem _ member)]
    by_cases later : other ∈ rest
    · rw [if_pos later, if_pos (List.mem_cons_of_mem _ later)]
    · rw [if_neg later]
      cases found : moved.2.get? path with
      | none =>
        have nothing : moveOne time source target moved path = moved := by rw [moveOne, found]
        rw [nothing]
        split
        · next member =>
          rw [(List.mem_cons.mp member).resolve_right later, found]
        · rfl
      | some o =>
        rw [get?_moveOne found, if_neg (aside path (List.mem_cons_self ..))]
        by_cases same : path = other
        · rw [if_pos same, if_pos (same ▸ List.mem_cons_self ..)]
        · rw [if_neg same, if_neg]
          exact fun member => (List.mem_cons.mp member).elim (same ∘ Eq.symm) later

/-- Nothing that has been moved is moved again or overwritten. -/
theorem get?_foldl_moveOne_of_mem {paths : List String} (nodup : paths.Nodup)
    (clear : ∀ path ∈ paths, movedPath source target path ∉ paths) (member : path ∈ paths)
    (apart : ∀ other ∈ paths, movedPath source target other = movedPath source target path →
      other = path)
    (found : moved.2.get? path = some o) :
    (paths.foldl (moveOne time source target) moved).2.get? (movedPath source target path) =
      some (movedObject time source target path o) := by
  induction paths generalizing moved with
  | nil => exact absurd member List.not_mem_nil
  | cons first rest ih =>
    obtain ⟨new, nodup⟩ := List.nodup_cons.mp nodup
    have unmoved : ∀ other ∈ first :: rest, movedPath source target other ∉ rest :=
      fun other inside later => clear other inside (List.mem_cons_of_mem _ later)
    rw [List.foldl_cons]
    by_cases later : path ∈ rest
    · refine ih nodup (fun other inside => unmoved other (List.mem_cons_of_mem _ inside)) later
        (fun other inside => apart other (List.mem_cons_of_mem _ inside)) ?_
      cases stored : moved.2.get? first with
      | none => rw [moveOne, stored, found]
      | some _ =>
        rw [get?_moveOne stored, if_neg, if_neg, found]
        · rintro rfl
          exact new later
        · rintro same
          exact unmoved first (List.mem_cons_self ..) (same ▸ later)
    · obtain rfl := (List.mem_cons.mp member).resolve_right later
      rw [get?_foldl_moveOne_of_ne, if_neg (unmoved path member), get?_moveOne found, if_pos rfl]
      exact fun other inside same =>
        later (apart other (List.mem_cons_of_mem _ inside) same ▸ inside)

private theorem fst_foldl_moveOne_of_not_mem {paths : List String} (aside : source ∉ paths) :
    (paths.foldl (moveOne time source target) moved).1 = moved.1 := by
  induction paths generalizing moved with
  | nil => rfl
  | cons path rest ih =>
    rw [List.mem_cons, not_or] at aside
    rw [List.foldl_cons, ih aside.2, moveOne]
    split
    · rfl
    · exact if_neg (Ne.symm aside.1)

/-- The entry that is kept is that of the object that is moved, as it is told of at its new place. -/
theorem fst_foldl_moveOne {paths : List String} (nodup : paths.Nodup)
    (clear : ∀ path ∈ paths, movedPath source target path ≠ source) (member : source ∈ paths)
    (found : moved.2.get? source = some o) :
    (paths.foldl (moveOne time source target) moved).1 =
      some (movedObject time source target source o).entry := by
  induction paths generalizing moved with
  | nil => exact absurd member List.not_mem_nil
  | cons first rest ih =>
    obtain ⟨new, nodup⟩ := List.nodup_cons.mp nodup
    rw [List.foldl_cons]
    by_cases here : first = source
    · rw [fst_foldl_moveOne_of_not_mem (here ▸ new), here, moveOne, found]
      exact if_pos rfl
    · have later := (List.mem_cons.mp member).resolve_left (Ne.symm here)
      refine ih nodup (fun path inside => clear path (List.mem_cons_of_mem _ inside)) later ?_
      cases stored : moved.2.get? first with
      | none => rw [moveOne, stored, found]
      | some _ =>
        rw [get?_moveOne stored, if_neg (clear first (List.mem_cons_self ..)), if_neg here, found]

/-- Moving changes the objects and uses up one reading of the clock. -/
theorem moveAll_frame (s : Store) (source target : String) :
    ∃ objects, (s.moveAll source target).2 = { s with objects, clock := s.clock + 1 } := by
  have frame : ∀ (paths : List String) (moved : Option Entry × Store),
      ∃ objects, (paths.foldl (moveOne s.clock source target) moved).2 =
        { moved.2 with objects } := by
    intro paths
    induction paths with
    | nil => exact fun moved => ⟨moved.2.objects, rfl⟩
    | cons path rest ih =>
      intro moved
      obtain ⟨objects, after⟩ := ih (moveOne s.clock source target moved path)
      refine ⟨objects, after.trans ?_⟩
      rw [moveOne]
      split
      · rfl
      · rfl
  obtain ⟨objects, after⟩ := frame (s.objects.keys.filter (isWithin · source))
    (none, { s with clock := s.clock + 1 })
  exact ⟨objects, after⟩

end MoveOne

/-- What moving an object does: it is removed where it was, and what is new lies where it is put. -/
structure Moves (s s' : Store) (source target : String) (e : Entry) : Prop where
  leaves : Removes s (s.without source) source
  normal : IsNormal target
  free : (s.without source).get? target = none
  folder : ∀ above, parent? target = some above →
    ∃ o, (s.without source).get? above = some o ∧ o.entry.isFolder
  here : ∃ o, s'.get? target = some o ∧ o.entry = e
  kept : ∀ {other o}, (s.without source).get? other = some o → s'.get? other = some o
  fresh : ∀ {other o}, s'.get? other = some o → (s.without source).get? other = none →
    isWithin other target
  sound : s'.Sound

/-- The paths that are taken one by one: those of an object and of everything below it. -/
theorem mem_moving {path : String} :
    path ∈ s.objects.keys.filter (isWithin · source) ↔
      (∃ o, s.get? path = some o) ∧ isWithin path source := by
  rw [List.mem_filter, Std.TreeMap.mem_keys, ← Std.TreeMap.contains_iff_mem, contains_iff]

private theorem nodup_moving : (s.objects.keys.filter (isWithin · source)).Nodup :=
  Std.TreeMap.nodup_keys.filter _

/-- When a store moves an object, unless it is read-only. -/
structure CanMove (s : Store) (source target : String) (o : StoredObject) : Prop where
  sound : s.Sound
  normal : IsNormal source
  normal' : IsNormal target
  found : s.get? source = some o
  free : s.get? target = none
  outside : ¬ isBelow target source
  folder : ∀ above, parent? target = some above → ∃ o, s.get? above = some o ∧ o.entry.isFolder

namespace CanMove

variable {o : StoredObject}

theorem deep (can : CanMove s source target o) : source ≠ root := by
  rintro rfl
  refine can.outside (isBelow_root_iff.mpr ?_)
  rintro rfl
  have taken := can.found
  rw [can.free] at taken
  cases taken

theorem deep' (can : CanMove s source target o) : target ≠ root := by
  rintro rfl
  obtain ⟨top, stored⟩ := can.sound.of_isWithin can.found isNormal_root (isWithin_root source)
  rw [can.free] at stored
  cases stored

/-- Everything that is moved comes to a normal path within the target. -/
theorem isNormal_moved (can : CanMove s source target o) {p : String} {old : StoredObject}
    (stored : s.get? p = some old) (within : isWithin p source) :
    IsNormal (movedPath source target p) ∧ isWithin (movedPath source target p) target :=
  ⟨isNormal_movedPath (can.sound.normal stored) can.normal can.normal' can.deep can.deep' within,
    isWithin_movedPath (can.sound.normal stored) can.normal can.normal' can.deep can.deep' within⟩

private theorem eq_join (can : CanMove s source target o) {p : String} {old : StoredObject}
    (stored : s.get? p = some old) (below : isBelow p source) :
    ∃ folder name top, IsNormal folder ∧ IsName name ∧ p = join folder name ∧
      isWithin folder source ∧ s.get? folder = some top ∧
      movedPath source target p = join (movedPath source target folder) name := by
  obtain ⟨folder, name, normalFolder, named, rfl⟩ := (can.sound.normal stored).eq_root_or_join
    |>.resolve_left (ne_root_of_isWithin can.normal can.deep (isWithin_iff.mpr (Or.inr below)))
  have within := (isBelow_join_iff normalFolder named can.normal).mp below
  obtain ⟨top, above⟩ := can.sound.above stored (parent?_join normalFolder named)
  exact ⟨folder, name, top, normalFolder, named, rfl, within, above,
    movedPath_join can.normal can.normal' can.deep can.deep' within⟩

private theorem clear (can : CanMove s source target o) :
    ∀ path ∈ s.objects.keys.filter (isWithin · source),
      movedPath source target path ∉ s.objects.keys.filter (isWithin · source) := by
  intro path member again
  obtain ⟨⟨old, stored⟩, within⟩ := mem_moving.mp member
  obtain ⟨⟨_, stored'⟩, -⟩ := mem_moving.mp again
  have inside := (can.isNormal_moved stored within).2
  rw [can.sound.get?_of_isWithin can.free can.normal' inside] at stored'
  cases stored'

private theorem arrived (can : CanMove s source target o) {p : String} {old : StoredObject}
    (stored : s.get? p = some old) (within : isWithin p source) :
    (s.moveAll source target).2.get? (movedPath source target p) =
      some (movedObject s.clock source target p old) := by
  refine get?_foldl_moveOne_of_mem nodup_moving can.clear (mem_moving.mpr ⟨⟨old, stored⟩, within⟩)
    ?_ stored
  intro p' member same
  have back : movedPath target source (movedPath source target p) = p :=
    movedPath_movedPath can.deep within
  have back' : movedPath target source (movedPath source target p') = p' :=
    movedPath_movedPath can.deep (mem_moving.mp member).2
  rw [← back', same, back]

/-- What is told at last is what the object that moved has become. -/
theorem told (can : CanMove s source target o) : (s.moveAll source target).1 =
    some (movedObject s.clock source target source o).entry := by
  have here := mem_moving.mpr ⟨⟨o, can.found⟩, isWithin_self source⟩
  refine fst_foldl_moveOne nodup_moving ?_ here can.found
  intro path member same
  have again := can.clear path member
  rw [same] at again
  exact again here

private theorem others {other : String} (aside : ∀ p old, s.get? p = some old →
    isWithin p source → movedPath source target p ≠ other) :
    (s.moveAll source target).2.get? other = (s.without source).get? other := by
  have moved : ∀ p ∈ s.objects.keys.filter (isWithin · source),
      movedPath source target p ≠ other := by
    intro p member
    obtain ⟨⟨old, stored⟩, within⟩ := mem_moving.mp member
    exact aside p old stored within
  refine (get?_foldl_moveOne_of_ne _ moved).trans ?_
  change (if _ then none else s.get? other) = _
  rw [get?_without]
  cases stored : s.get? other with
  | none => rw [ite_self, ite_self]
  | some o => simp only [mem_moving, stored, Option.some.injEq, exists_eq', true_and]

private theorem origin {other : String} {new : StoredObject} (can : CanMove s source target o)
    (stored : (s.moveAll source target).2.get? other = some new) :
    (s.without source).get? other = some new ∨
      ∃ p old, s.get? p = some old ∧ isWithin p source ∧ other = movedPath source target p ∧
        new = movedObject s.clock source target p old := by
  by_cases moved : ∃ p old, s.get? p = some old ∧ isWithin p source ∧
      movedPath source target p = other
  · obtain ⟨p, old, stored', within, rfl⟩ := moved
    rw [can.arrived stored' within, Option.some.injEq] at stored
    exact Or.inr ⟨p, old, stored', within, rfl, stored.symm⟩
  · rw [others fun p old stored' within same => moved ⟨p, old, stored', within, same⟩] at stored
    exact Or.inl stored

private theorem stored_of_without {other : String} {old : StoredObject}
    (left : (s.without source).get? other = some old) :
    s.get? other = some old ∧ ¬ isWithin other source := by
  rw [get?_without] at left
  split at left
  · cases left
  · next aside => exact ⟨left, aside⟩

private theorem kept {other : String} {old : StoredObject} (can : CanMove s source target o)
    (left : (s.without source).get? other = some old) :
    (s.moveAll source target).2.get? other = some old := by
  rw [others ?_, left]
  rintro p old' stored within rfl
  have inside := (can.isNormal_moved stored within).2
  have nothing := can.sound.get?_of_isWithin can.free can.normal' inside
  rw [(stored_of_without left).1] at nothing
  cases nothing

private theorem folder' (can : CanMove s source target o) (above : String)
    (parent : parent? target = some above) :
    ∃ o, (s.without source).get? above = some o ∧ o.entry.isFolder := by
  obtain ⟨o, stored, folderly⟩ := can.folder above parent
  refine ⟨o, ?_, folderly⟩
  rw [get?_without, if_neg fun within => can.outside ?_, stored]
  exact (isBelow_iff_of_parent? can.normal' parent can.normal).mpr within

/-- A move leaves a sound store. -/
theorem sound' (can : CanMove s source target o) :
    Sound (s.moveAll source target).2 := by
  refine ⟨?_, ?_, ?_⟩
  · intro other new stored
    rcases can.origin stored with left | ⟨p, old, stored', within, rfl, -⟩
    · exact can.sound.normal (stored_of_without left).1
    · exact (can.isNormal_moved stored' within).1
  · intro other above new stored parent
    rcases can.origin stored with left | ⟨p, old, stored', within, rfl, -⟩
    · have leaves : Removes s (s.without source) source :=
        ⟨can.normal, can.deep, get?_without s source⟩
      obtain ⟨top, left⟩ := (leaves.sound can.sound).above left parent
      exact ⟨top, can.kept left⟩
    · rcases isWithin_iff.mp within with rfl | below
      · rw [movedPath_self] at parent
        obtain ⟨top, left, -⟩ := can.folder' above parent
        exact ⟨top, can.kept left⟩
      · obtain ⟨folder, name, top, -, named, -, within', stored, moved⟩ := can.eq_join stored' below
        rw [moved, parent?_join (can.isNormal_moved stored within').1 named,
          Option.some.injEq] at parent
        exact ⟨_, parent ▸ can.arrived stored within'⟩
  · intro other new stored
    rcases can.origin stored with left | ⟨p, old, stored', within, rfl, rfl⟩
    · exact can.sound.named (stored_of_without left).1
    · rw [movedObject]
      split
      · next same => rw [same, movedPath_self]
      · next differ =>
        obtain ⟨folder, name, top, normal, named, rfl, within', stored, moved⟩ :=
          can.eq_join stored' ((isWithin_iff.mp within).resolve_left differ)
        rw [can.sound.named stored', moved, fileName_join normal named,
          fileName_join (can.isNormal_moved stored within').1 named]

private theorem moves (can : CanMove s source target o) :
    Moves s (s.moveAll source target).2 source target
      (movedObject s.clock source target source o).entry := by
  refine ⟨⟨can.normal, can.deep, get?_without s source⟩, can.normal', ?_, can.folder', ?_, can.kept,
    ?_, can.sound'⟩
  · rw [get?_without, can.free, ite_self]
  · have there := can.arrived can.found (isWithin_self source)
    rw [movedPath_self] at there
    exact ⟨_, there, rfl⟩
  · intro other new stored missing
    rcases can.origin stored with left | ⟨p, old, stored', within, rfl, -⟩
    · rw [missing] at left
      cases left
    · exact (can.isNormal_moved stored' within).2

end CanMove

/-- Where an object is found that was at a path before one was moved. -/
def place (source target path : String) : String :=
  if isWithin path source then movedPath source target path else path

section Place

variable {folder : String}

theorem place_self (source target : String) : place source target source = target := by
  rw [place, if_pos (isWithin_self source), movedPath_self]

theorem place_root (normal : IsNormal source) (deep : source ≠ root) :
    place source target root = root :=
  if_neg fun within => ne_root_of_isWithin normal deep within rfl

/-- Objects stay in their folders, wherever these are put. -/
theorem parent?_place (normal : IsNormal source) (normal' : IsNormal target) (deep : source ≠ root)
    (deep' : target ≠ root) (normalPath : IsNormal path) (differ : path ≠ source)
    (parent : parent? path = some folder) :
    parent? (place source target path) = some (place source target folder) := by
  have inside := isBelow_iff_of_parent? normalPath parent normal
  obtain ⟨normalFolder, named, same⟩ := normalPath.of_parent? parent
  by_cases within : isWithin path source
  · have above := inside.mp ((isWithin_iff.mp within).resolve_left differ)
    have normalMoved := isNormal_movedPath normalFolder normal normal' deep deep' above
    rw [place, place, if_pos within, if_pos above, ← same,
      movedPath_join normal normal' deep deep' above, parent?_join normalMoved named]
  · have outside : ¬ isWithin folder source := fun above =>
      within (isWithin_iff.mpr (Or.inr (inside.mpr above)))
    rw [place, place, if_neg within, if_neg outside, parent]

end Place

/-- After a move the store has exactly the objects of before, each at its place. -/
theorem CanMove.get?_moveAll_iff {o : StoredObject} (can : CanMove s source target o)
    {other : String} {new : StoredObject} :
    (s.moveAll source target).2.get? other = some new ↔ ∃ path old, s.get? path = some old ∧
      place source target path = other ∧ movedObject s.clock source target path old = new := by
  constructor
  · intro stored
    rcases can.origin stored with left | ⟨path, old, stored', within, rfl, rfl⟩
    · obtain ⟨stored', aside⟩ := stored_of_without left
      refine ⟨other, new, stored', if_neg aside, if_neg ?_⟩
      rintro rfl
      exact aside (isWithin_self other)
    · exact ⟨path, old, stored', if_pos within, rfl⟩
  · rintro ⟨path, old, stored, rfl, rfl⟩
    by_cases within : isWithin path source
    · rw [place, if_pos within]
      exact can.arrived stored within
    · have left : (s.without source).get? path = some old := by
        rw [get?_without, if_neg within, stored]
      rw [place, if_neg within, movedObject, if_neg]
      · exact can.kept left
      · rintro rfl
        exact within (isWithin_self path)

/-- A rename that succeeds was possible, and is told with the entry at the new place. -/
theorem exists_canMove (sound : s.Sound) (done : s.rename source target = .ok (e, s')) :
    s.readOnly = false ∧ ∃ o, CanMove s (normalize source) (normalize target) o ∧
      (movedObject s.clock (normalize source) (normalize target) (normalize source) o).entry = e ∧
      (s.moveAll (normalize source) (normalize target)).2 = s' := by
  obtain ⟨writable, done⟩ := Edit.of_checkWritable (Edit.result_eq_ok_iff.mp done)
  obtain ⟨here, done⟩ := Edit.of_check (Edit.of_get done)
  obtain ⟨vacant, done⟩ := Edit.of_check done
  obtain ⟨outside, done⟩ := Edit.of_check done
  obtain ⟨folder, done⟩ := Edit.of_checkParent done
  rw [Bool.not_eq_true', contains_eq_false_iff] at vacant
  rw [Bool.not_eq_true'] at outside
  obtain ⟨o, found⟩ := contains_iff.mp here
  have can : CanMove s (normalize source) (normalize target) o :=
    ⟨sound, isNormal_normalize source, isNormal_normalize target, found, vacant,
      Bool.eq_false_iff.mp outside, folder⟩
  rw [Edit.apply_bind, Edit.apply_modifyGet, can.told] at done
  dsimp only at done
  rw [Edit.apply_pure, Prod.mk.injEq, Except.ok.injEq] at done
  exact ⟨writable, o, can, done⟩

/-- A rename that succeeds moves an object with everything below it. -/
theorem moves_rename (sound : s.Sound) (done : s.rename source target = .ok (e, s')) :
    Moves s s' (normalize source) (normalize target) e := by
  obtain ⟨-, o, can, rfl, rfl⟩ := exists_canMove sound done
  exact can.moves

theorem nextId_rename (sound : s.Sound) (done : s.rename source target = .ok (e, s')) :
    s'.nextId = s.nextId := by
  obtain ⟨-, o, -, -, rfl⟩ := exists_canMove sound done
  obtain ⟨objects, after⟩ := moveAll_frame s (normalize source) (normalize target)
  rw [after]

/-- Moving an object takes it and everything below it to other paths, and nothing else changes. -/
theorem get?_rename_eq_some_iff (sound : s.Sound) (done : s.rename source target = .ok (e, s'))
    {other : String} {new : StoredObject} :
    s'.get? other = some new ↔ ∃ path old, s.get? path = some old ∧
      place (normalize source) (normalize target) path = other ∧
      movedObject s.clock (normalize source) (normalize target) path old = new := by
  obtain ⟨-, o, can, -, rfl⟩ := exists_canMove sound done
  exact can.get?_moveAll_iff

/-- The root cannot be moved. -/
theorem Moves.hasRoot (moves : Moves s s' source target e) (kept : s.HasRoot) : s'.HasRoot := by
  obtain ⟨o, found, same⟩ := moves.leaves.hasRoot kept
  exact ⟨o, moves.kept found, same⟩

/-- Whatever has been done to a store since it was new, it is sound. -/
theorem Built.sound (built : s.Built) : s.Sound := by
  induction built with
  | empty => exact sound_empty
  | insertFile path content _ ih => exact sound_insertFile ih path content
  | insertFolder path _ ih => exact sound_insertFolder ih path
  | protect readOnly _ ih => exact ⟨ih.normal, ih.above, ih.named⟩
  | write _ done ih => exact (writesFile_write done).sound ih
  | append _ done ih => exact (writesFile_append done).sound ih
  | makeFolder _ done ih => exact (makesFolder_makeFolder ih done).sound
  | remove _ done ih => exact (removes_remove done).sound ih
  | rename _ done ih => exact (moves_rename ih done).sound

end StoreShell.Store
