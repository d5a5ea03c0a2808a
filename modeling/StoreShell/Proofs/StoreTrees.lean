import StoreShell.Proofs.StoreChanges

/-! # Stores in which every object lies in a folder

A store is a tree if its root is a folder and every other object lies in a folder; then listing
folders, from the root on, leads to all of its objects. Of the requests that a client can make there
is one that does not keep a store a tree: making a folder together with the folders above it does
not ask whether the lowest object that exists above is a folder. `isTree_along_iff` says that
nothing else goes wrong, and `exists_unlisted` shows what goes wrong there.
-/

namespace StoreShell.Store

open StoreShell.Path

/-- Whether the root is a folder and every other object lies in one. -/
structure IsTree (s : Store) : Prop where
  top : ∃ o, s.get? root = some o ∧ o.entry.isFolder
  inFolder : ∀ {path o}, s.get? path = some o → path ≠ root →
    ∃ folder above, parent? path = some folder ∧ s.get? folder = some above ∧ above.entry.isFolder

/-- Whether listing folders leads to a path, from the root on. -/
inductive Listed (s : Store) : String → Prop where
  | root : Listed s root
  | child {folder entries e} : Listed s folder → s.list folder = .ok entries → e ∈ entries →
      Listed s (join folder e.name)

section IsTree

variable {s s' : Store} {path folder : String} {o : StoredObject}

/-- Whatever holds an object in a tree is a folder. -/
theorem IsTree.isFolder_above (tree : s.IsTree) (normal : IsNormal path)
    (found : s.get? path = some o) (normal' : IsNormal folder) (below : isBelow path folder) :
    ∃ above, s.get? folder = some above ∧ above.entry.isFolder := by
  refine IsNormal.induct (motive := fun path => ∀ o, s.get? path = some o → isBelow path folder →
    ∃ above, s.get? folder = some above ∧ above.entry.isFolder) ?_ ?_ normal o found below
  · exact fun o _ below => absurd below (not_isBelow_root normal')
  · intro parent name normalParent named ih o found below
    obtain ⟨_, above, parent', stored, folderly⟩ :=
      tree.inFolder found (join_ne_root normalParent named)
    rw [parent?_join normalParent named, Option.some.injEq] at parent'
    subst parent'
    rcases isWithin_iff.mp ((isBelow_join_iff normalParent named normal').mp below) with rfl | below
    · exact ⟨above, stored, folderly⟩
    · exact ih above stored below

/-- Listing folders leads to every object of a tree. -/
theorem IsTree.listed (tree : s.IsTree) (sound : s.Sound) (found : s.get? path = some o) :
    s.Listed path := by
  refine IsNormal.induct (motive := fun path => ∀ o, s.get? path = some o → s.Listed path)
    ?_ ?_ (sound.normal found) o found
  · exact fun _ _ => .root
  · intro folder name normal named ih o found
    obtain ⟨_, above, parent, stored, folderly⟩ :=
      tree.inFolder found (join_ne_root normal named)
    rw [parent?_join normal named, Option.some.injEq] at parent
    subst parent
    obtain ⟨entries, listed, listing⟩ := exists_isListing sound normal stored folderly
    have called : o.entry.name = name := by rw [sound.named found, fileName_join normal named]
    have member := (listing.mem o.entry).mpr (called.symm ▸ ⟨named, o, found, rfl⟩)
    exact called ▸ .child (ih above stored) listed member

/-- Listing folders leads only to what is there. -/
theorem IsTree.stored (tree : s.IsTree) (sound : s.Sound) (listed : s.Listed path) :
    ∃ o, s.get? path = some o := by
  induction listed with
  | root =>
    obtain ⟨o, found, -⟩ := tree.top
    exact ⟨o, found⟩
  | child _ answer member ih =>
    obtain ⟨o, found⟩ := ih
    obtain ⟨-, o, found, -⟩ :=
      ((isListing_of_list sound (sound.normal found) answer).mem _).mp member
    exact ⟨o, found⟩

end IsTree

/-! ### Requests that keep a tree -/

theorem isTree_empty : IsTree empty := by
  refine ⟨⟨_, (get?_empty root).trans (if_pos rfl), rfl⟩, fun {path o} found deep => ?_⟩
  rw [get?_empty, if_neg (Ne.symm deep)] at found
  cases found

section Keeping

variable {s s' : Store} {path source target : String} {o : StoredObject} {e : Entry}

/-- A tree stays one when an object is put in a folder and no folder is overwritten by a file. -/
theorem IsTree.put (tree : s.IsTree) (normal : IsNormal path)
    (effect : ∀ other, s'.get? other = if path = other then some o else s.get? other)
    (stays : ∀ old, s.get? path = some old → old.entry.isFolder → o.entry.isFolder)
    (folder : ∀ above, parent? path = some above → ∃ o, s.get? above = some o ∧ o.entry.isFolder) :
    s'.IsTree := by
  have keeps : ∀ {other}, (∃ o, s.get? other = some o ∧ o.entry.isFolder) →
      ∃ o, s'.get? other = some o ∧ o.entry.isFolder := by
    rintro other ⟨old, stored, folderly⟩
    rw [effect]
    split
    · next same => exact ⟨o, rfl, stays old (same ▸ stored) folderly⟩
    · exact ⟨old, stored, folderly⟩
  refine ⟨keeps tree.top, fun {other new} found deep => ?_⟩
  rw [effect] at found
  split at found
  · next same =>
    subst same
    obtain ⟨above, parent⟩ := normal.exists_parent? deep
    obtain ⟨old, stored, folderly⟩ := keeps (folder above parent)
    exact ⟨above, old, parent, stored, folderly⟩
  · obtain ⟨above, old, parent, stored, folderly⟩ := tree.inFolder found deep
    obtain ⟨old', stored', folderly'⟩ := keeps ⟨old, stored, folderly⟩
    exact ⟨above, old', parent, stored', folderly'⟩

/-- A file can only be written into a folder. -/
theorem IsTree.writesFile (tree : s.IsTree) (writes : WritesFile s s' path e) : s'.IsTree := by
  obtain ⟨o, -, -, effect⟩ := writes.effect
  refine tree.put writes.normal effect (fun old stored folderly => ?_) writes.folder
  rw [writes.before old stored] at folderly
  cases folderly

/-- Whether whatever lies above a path is a folder, if it is there. -/
def ClearTo (s : Store) (path : String) : Prop :=
  ∀ above o, s.get? above = some o → isBelow path above → o.entry.isFolder

/-- The folders above a path that are made keep a tree if the way to the path is clear. -/
theorem IsTree.ensureParents (tree : s.IsTree) (sound : s.Sound) (normal : IsNormal path)
    (clear : s.ClearTo path) :
    (s.ensureParents path).IsTree ∧ ∀ above, IsNormal above → isBelow path above →
      ∃ o, (s.ensureParents path).get? above = some o ∧ o.entry.isFolder := by
  have way : ∀ above, IsNormal above → isBelow path above →
      ∃ o, (s.ensureParents path).get? above = some o ∧ o.entry.isFolder := by
    intro above normalAbove below
    cases stored : s.get? above with
    | some o =>
      exact ⟨o, get?_ensureParents_of_some sound normal stored, clear above o stored below⟩
    | none =>
      obtain ⟨_, _, made⟩ := get?_ensureParents_of_isBelow sound normal normalAbove stored below
      exact ⟨_, made, rfl⟩
  refine ⟨⟨?_, fun {other o} found deep => ?_⟩, way⟩
  · obtain ⟨o, stored, folderly⟩ := tree.top
    exact ⟨o, get?_ensureParents_of_some sound normal stored, folderly⟩
  · rcases of_get?_ensureParents sound normal found with stored | ⟨normal', below, -⟩
    · obtain ⟨above, old, parent, stored, folderly⟩ := tree.inFolder stored deep
      exact ⟨above, old, parent, get?_ensureParents_of_some sound normal stored, folderly⟩
    · obtain ⟨above, parent⟩ := normal'.exists_parent? deep
      have normalAbove := (normal'.of_parent? parent).1
      have inside := isBelow_of_parent? normal' parent
      obtain ⟨o, stored, folderly⟩ :=
        way above normalAbove (isBelow_trans normal normal' normalAbove below inside)
      exact ⟨above, o, parent, stored, folderly⟩

/-- A folder made with those above it fits into the tree if the way to it is clear of files. -/
theorem IsTree.putsFolder (tree : s.IsTree) (sound : s.Sound) (normal : IsNormal path)
    {parents : Bool} (puts : PutsFolder s path parents e s')
    (clear : parents = true → s.ClearTo path) : s'.IsTree := by
  cases puts with
  | present _ _ => exact tree
  | alone _ folder put =>
    subst put
    exact tree.put normal (get?_putFolder s path) (fun _ _ _ => rfl) folder
  | along _ put =>
    subst put
    obtain ⟨tree', way⟩ := tree.ensureParents sound normal (clear rfl)
    refine tree'.put normal (get?_putFolder _ path) (fun _ _ _ => rfl) fun above parent => ?_
    exact way above (normal.of_parent? parent).1 (isBelow_of_parent? normal parent)

/-- With an object everything below it is removed, so nothing is left hanging. -/
theorem IsTree.removes (tree : s.IsTree) (sound : s.Sound) (removes : Removes s s' path) :
    s'.IsTree := by
  refine ⟨?_, fun {other o} found deep => ?_⟩
  · obtain ⟨o, stored, folderly⟩ := tree.top
    refine ⟨o, ?_, folderly⟩
    rw [removes.effect, if_neg, stored]
    exact fun within => ne_root_of_isWithin removes.normal removes.deep within rfl
  · rw [removes.effect] at found
    split at found
    · cases found
    · next outside =>
      obtain ⟨above, old, parent, stored, folderly⟩ := tree.inFolder found deep
      refine ⟨above, old, parent, ?_, folderly⟩
      rw [removes.effect, if_neg, stored]
      intro within
      exact outside (isWithin_iff.mpr (Or.inr
        ((isBelow_iff_of_parent? (sound.normal found) parent removes.normal).mpr within)))

private theorem isFolder_movedObject (time : Nat) (source target path : String)
    (o : StoredObject) : (movedObject time source target path o).entry.isFolder = o.entry.isFolder := by
  rw [movedObject]
  split
  · rfl
  · rfl

/-- What is moved takes everything below it along, into a folder. -/
theorem IsTree.rename (tree : s.IsTree) (sound : s.Sound)
    (done : s.rename source target = .ok (e, s')) : s'.IsTree := by
  have moves := moves_rename sound done
  have moved : ∀ {other new}, s'.get? other = some new ↔ ∃ path old, s.get? path = some old ∧
      place (normalize source) (normalize target) path = other ∧
      movedObject s.clock (normalize source) (normalize target) path old = new :=
    get?_rename_eq_some_iff sound done
  clear done
  generalize normalize source = source at moves moved
  generalize normalize target = target at moves moved
  have normal := moves.leaves.normal
  have deep := moves.leaves.deep
  obtain ⟨top, stored, folderly⟩ := tree.top
  have deep' : target ≠ root := by
    rintro rfl
    have free := moves.free
    rw [moves.leaves.effect, if_neg fun within => ne_root_of_isWithin normal deep within rfl,
      stored] at free
    cases free
  refine ⟨⟨_, moved.mpr ⟨root, top, stored, place_root normal deep, rfl⟩, ?_⟩,
    fun {other new} found lower => ?_⟩
  · rw [isFolder_movedObject, folderly]
  obtain ⟨path, old, stored, rfl, rfl⟩ := moved.mp found
  by_cases itself : path = source
  · -- the object that moves lies in the folder that was asked for
    subst itself
    rw [place_self] at lower ⊢
    obtain ⟨above, parent⟩ := moves.normal.exists_parent? lower
    obtain ⟨o, left, folderly⟩ := moves.folder above parent
    exact ⟨above, o, parent, moves.kept left, folderly⟩
  · have lower' : path ≠ root := by
      rintro rfl
      exact lower (place_root normal deep)
    obtain ⟨folder, above, parent, stored', folderly⟩ := tree.inFolder stored lower'
    refine ⟨place source target folder, _, parent?_place normal moves.normal deep deep'
      (sound.normal stored) itself parent, moved.mpr ⟨folder, above, stored', rfl, rfl⟩, ?_⟩
    rw [isFolder_movedObject, folderly]

end Keeping

/-! ### Any requests, one after the other -/

/-- What a client may ask of a store in order to change it. -/
inductive Request where
  | write (path : String) (content : Bytes)
  | append (path : String) (content : Bytes)
  | makeFolder (path : String) (parents : Bool)
  | remove (path : String) (recursive : Bool)
  | rename (source target : String)

namespace Request

/-- The store after a request, or why the request is refused. -/
def answer (s : Store) : Request → Except Failure Store
  | write path content => (s.write path content).map Prod.snd
  | append path content => (s.append path content).map Prod.snd
  | makeFolder path parents => (s.makeFolder path parents).map Prod.snd
  | remove path recursive => s.remove path recursive
  | rename source target => (s.rename source target).map Prod.snd

/-- The store that a request leaves. If the request is refused that is the store as it was. -/
def apply (s : Store) (r : Request) : Store := (r.answer s).toOption.getD s

/-- Whether a request makes folders on a way that leads through a file. -/
def LeadsThroughFile (s : Store) (r : Request) : Prop :=
  ∃ path, r = .makeFolder path true ∧ s.readOnly = false ∧ ¬ s.ClearTo (normalize path)

end Request

section Step

variable {s s' : Store} {r : Request} {path : String} {e : Entry}

private theorem of_map_snd {answer : Except Failure (Entry × Store)}
    (done : answer.map Prod.snd = .ok s') : ∃ e, answer = .ok (e, s') := by
  cases answer with
  | error failure => cases done
  | ok both =>
    cases done
    exact ⟨both.1, rfl⟩

theorem Built.apply (built : s.Built) (r : Request) : (r.apply s).Built := by
  rw [Request.apply]
  cases done : r.answer s with
  | error failure => exact built
  | ok s' =>
    change s'.Built
    cases r with
    | write path content => exact (of_map_snd done).elim fun _ => built.write
    | append path content => exact (of_map_snd done).elim fun _ => built.append
    | makeFolder path parents => exact (of_map_snd done).elim fun _ => built.makeFolder
    | remove path recursive => exact built.remove done
    | rename source target => exact (of_map_snd done).elim fun _ => built.rename

private theorem readOnly_of_makeFolder {parents : Bool}
    (done : s.makeFolder path parents = .ok (e, s')) : s.readOnly = false :=
  (Edit.of_checkWritable (Edit.result_eq_ok_iff.mp done)).1

/-- No request takes the root away. -/
theorem HasRoot.apply (kept : s.HasRoot) (sound : s.Sound) (r : Request) :
    (r.apply s).HasRoot := by
  rw [Request.apply]
  cases done : r.answer s with
  | error failure => exact kept
  | ok s' =>
    change s'.HasRoot
    cases r with
    | write path content =>
      exact (of_map_snd done).elim fun _ done => (writesFile_write done).hasRoot kept
    | append path content =>
      exact (of_map_snd done).elim fun _ done => (writesFile_append done).hasRoot kept
    | makeFolder path parents =>
      exact (of_map_snd done).elim fun _ done => (makesFolder_makeFolder sound done).hasRoot kept
    | remove path recursive => exact (removes_remove done).hasRoot kept
    | rename source target =>
      exact (of_map_snd done).elim fun _ done => (moves_rename sound done).hasRoot kept

/-- A request keeps a tree unless it makes folders through a file. -/
theorem IsTree.apply (tree : s.IsTree) (sound : s.Sound) (clear : ¬ r.LeadsThroughFile s) :
    (r.apply s).IsTree := by
  rw [Request.apply]
  cases done : r.answer s with
  | error failure => exact tree
  | ok s' =>
    change s'.IsTree
    cases r with
    | write path content =>
      obtain ⟨e, done⟩ := of_map_snd done
      exact tree.writesFile (writesFile_write done)
    | append path content =>
      obtain ⟨e, done⟩ := of_map_snd done
      exact tree.writesFile (writesFile_append done)
    | makeFolder path parents =>
      obtain ⟨e, done⟩ := of_map_snd done
      refine tree.putsFolder sound (isNormal_normalize path) (putsFolder_makeFolder done) ?_
      rintro rfl
      exact Classical.byContradiction fun blocked =>
        clear ⟨path, rfl, readOnly_of_makeFolder done, blocked⟩
    | remove path recursive => exact tree.removes sound (removes_remove done)
    | rename source target =>
      obtain ⟨e, done⟩ := of_map_snd done
      exact tree.rename sound done

/-- Folders that are made through a file lie below it afterwards. -/
theorem IsTree.not_apply (tree : s.IsTree) (sound : s.Sound) (through : r.LeadsThroughFile s) :
    ¬ (r.apply s).IsTree := by
  obtain ⟨path, rfl, writable, blocked⟩ := through
  have normal := isNormal_normalize path
  simp only [ClearTo, not_forall] at blocked
  obtain ⟨file, o, stored, below, notFolder⟩ := blocked
  have missing : s.get? (normalize path) = none := by
    refine Option.eq_none_iff_forall_ne_some.mpr fun old found => notFolder ?_
    obtain ⟨above, stored', folderly⟩ := tree.isFolder_above normal found (sound.normal stored) below
    rw [stored, Option.some.injEq] at stored'
    exact stored' ▸ folderly
  have done : (Request.makeFolder path true).apply s =
      ((s.ensureParents (normalize path)).putFolder (normalize path)).2 := by
    have made : s.makeFolder path true =
        .ok ((s.ensureParents (normalize path)).putFolder (normalize path)) := by
      refine Edit.result_eq_ok_iff.mpr ?_
      rw [Edit.makeFolder, Edit.apply_checkWritable_bind _ writable, Edit.apply_get_bind, missing]
      rfl
    rw [Request.apply, Request.answer, made]
    rfl
  intro tree'
  rw [done] at tree'
  have here := get?_putFolder (s.ensureParents (normalize path)) (normalize path)
  obtain ⟨above, stored', folderly⟩ := tree'.isFolder_above normal ((here _).trans (if_pos rfl))
    (sound.normal stored) below
  rw [here, if_neg, get?_ensureParents_of_some sound normal stored, Option.some.injEq] at stored'
  · exact notFolder (stored' ▸ folderly)
  · rintro rfl
    exact not_isBelow_self normal below

end Step

def after (s : Store) (requests : List Request) : Store := requests.foldl Request.apply s

section Runs

variable {s : Store}

/-- By induction on the requests. -/
theorem Built.after (built : s.Built) (requests : List Request) : (s.after requests).Built := by
  induction requests generalizing s with
  | nil => exact built
  | cons r rest ih => exact ih (built.apply r)

theorem Built.hasRoot_after (built : s.Built) (kept : s.HasRoot) (requests : List Request) :
    (s.after requests).HasRoot := by
  induction requests generalizing s with
  | nil => exact kept
  | cons r rest ih => exact ih (built.apply r) (kept.apply built.sound r)

/-- Requests keep a tree all along exactly if none of them makes folders through a file. -/
theorem Built.isTree_take_iff (built : s.Built) (tree : s.IsTree) (requests : List Request) :
    (∀ n, (s.after (requests.take n)).IsTree) ↔
      ∀ (n : Nat) (r : Request), requests[n]? = some r →
        ¬ r.LeadsThroughFile (s.after (requests.take n)) := by
  refine forall_foldl_take_iff tree fun n r _ tree => ?_
  have sound : (s.after (requests.take n)).Sound := (built.after _).sound
  exact ⟨fun tree' through => tree.not_apply sound through tree', tree.apply sound⟩

end Runs

/-- Whatever a client asks of a new store, its root stays a folder and every other object lies in
something that is there. That this is a folder, so that listing folders leads to all objects and to
nothing else, holds all along exactly if no folders are made through a file. -/
theorem isTree_along_iff (requests : List Request) :
    (∀ n, (∃ o, (empty.after (requests.take n)).get? root = some o ∧ o.entry.isFolder) ∧
      ∀ path o, (empty.after (requests.take n)).get? path = some o → path ≠ root →
        ∃ folder above, parent? path = some folder ∧
          (empty.after (requests.take n)).get? folder = some above) ∧
    ((∀ n, (empty.after (requests.take n)).IsTree ∧
        ∀ path, (empty.after (requests.take n)).Listed path ↔
          ∃ o, (empty.after (requests.take n)).get? path = some o) ↔
      ∀ (n : Nat) (r : Request), requests[n]? = some r →
        ¬ r.LeadsThroughFile (empty.after (requests.take n))) := by
  have built : ∀ n, (empty.after (requests.take n)).Built := fun n => Built.empty.after _
  refine ⟨fun n => ⟨?_, fun path o found deep => ?_⟩, ?_⟩
  · obtain ⟨o, found, same⟩ := Built.empty.hasRoot_after hasRoot_empty (requests.take n)
    exact ⟨o, found, same ▸ rfl⟩
  · exact (built n).sound.exists_above found deep
  · rw [← Built.empty.isTree_take_iff isTree_empty]
    refine forall_congr' fun n => ⟨And.left, fun tree => ⟨tree, fun path => ⟨?_, ?_⟩⟩⟩
    · exact tree.stored (built n).sound
    · rintro ⟨o, found⟩
      exact tree.listed (built n).sound found

/-- A folder that is made below a file, together with the folders on the way, is there, but no
listing leads to it. -/
theorem exists_unlisted :
    let s := empty.after [.write "/f" [], .makeFolder "/f/d" true]
    (∃ o, s.get? "/f/d" = some o) ∧
      (∃ o, s.get? "/f" = some o ∧ parent? "/f/d" = some "/f" ∧ o.entry.isFolder = false) ∧
      ¬ s.Listed "/f/d" := by
  intro s
  have listings : (s.list "/").toOption.map (·.map Entry.name) = some ["f"] ∧
      (s.list "/f").toOption = none := by decide +kernel
  have only : ∀ path, s.Listed path → path = "/" ∨ path = "/f" := by
    intro path listed
    induction listed with
    | root => exact Or.inl rfl
    | @child folder entries e _ answer member ih =>
      rcases ih with rfl | rfl
      · simp only [answer, Except.toOption, Option.map_some, Option.some.injEq] at listings
        have name : e.name = "f" := by
          have named := List.mem_map_of_mem (f := Entry.name) member
          rw [listings.1] at named
          exact List.mem_singleton.mp named
        exact Or.inr (by rw [name]; decide)
      · rw [answer] at listings
        cases listings.2
  refine ⟨Option.isSome_iff_exists.mp (by decide +kernel), ?_, fun listed => ?_⟩
  · have file : (s.get? "/f").map (·.entry.isFolder) = some false := by decide +kernel
    obtain ⟨o, found, file⟩ := Option.map_eq_some_iff.mp file
    exact ⟨o, found, by decide, file⟩
  · rcases only _ listed with same | same
    · exact absurd same (by decide)
    · exact absurd same (by decide)

end StoreShell.Store
