import StoreShell.Proofs.ReplacedChildren

/-! # Files in caches

Nothing lies below a file and a file has no children, so a cache that is told of a file should know
nothing there any more (`FilesBare`). Forgetting takes whole branches and is no danger. What is told
of a path is: noting an object leaves the children of its path as they are, and a listing that names
a child as a file takes the children of that file and leaves all else that was known below it. An
operation that does so *strands* what it leaves, and the others keep files bare as long as nobody
tells of anything inside a file (`Operation.Heeds`).
-/

namespace StoreShell.Cache

open StoreShell.Path

/-- Whether a cache has a file at a path, however it is spelled. -/
def IsFile (c : Cache) (path : String) : Prop := ∃ e, c.get? path = some e ∧ e.isFolder = false

def HasBelow (c : Cache) (above : String) : Prop :=
  ∃ path, (c.get? path).isSome ∧ isBelow (normalize path) (normalize above)

/-- Whether a cache has nothing below files, and files have no children. -/
structure FilesBare (c : Cache) : Prop where
  nothingBelow : ∀ {file}, c.IsFile file → ¬ c.HasBelow file
  unloaded : ∀ {file}, c.IsFile file → c.isLoaded file = false

/-- Whether an operation tells of nothing inside a file: what is noted lies below no file and is no
file itself above known objects, unless it was one before, and what is listed is no file and lies in
none. The names in a listing are proper and differ. -/
structure Operation.Heeds (c : Cache) (o : Operation) : Prop where
  added : ∀ {e path}, o = .add e path →
    (∀ {file}, c.IsFile file → ¬ isBelow (normalize path) (normalize file)) ∧
    (e.isFolder = false → c.IsFile path ∨ ¬ c.HasBelow path)
  listed : ∀ {folder entries}, o.Installs c folder entries →
    (∀ e ∈ entries, IsName e.name) ∧ (entries.Pairwise fun a b => a.name ≠ b.name) ∧
    ∀ {file}, c.IsFile file → ¬ isWithin folder (normalize file)

/-- Whether an operation tells of a file where something stays known that files do not have: an
object is noted whose path has children, or a child is listed below which there are objects. -/
inductive Operation.Strands (c : Cache) : Operation → Prop where
  | noted {e path} : e.isFolder = false → c.isLoaded path → Strands c (.add e path)
  | listed {o folder entries e} : o.Installs c folder entries → e ∈ entries → e.isFolder = false →
      c.HasBelow (join folder e.name) → Strands c o

/-- Whether the names that a cache has for the children of folders are proper. -/
def ProperlyNamed (c : Cache) : Prop :=
  ∀ folder names, c.childNames? folder = some names → ∀ name ∈ names, IsName name

/-- Whether a cache knows no files, nothing below a path and no children that another one does not
know. -/
structure KnowsLess (c c' : Cache) : Prop where
  files : ∀ {path}, c'.IsFile path → c.IsFile path
  below : ∀ {path}, c'.HasBelow path → c.HasBelow path
  children : ∀ {folder names}, c'.childNames? folder = some names →
    ∃ more, c.childNames? folder = some more ∧ ∀ name ∈ names, name ∈ more

variable {c c' : Cache} {o : Operation} {operations : List Operation} {folder path : String}
  {entries : List Entry} {e : Entry}

/-! ### Knowing less -/

/-- Knowing less can be read off the entries and the children. -/
theorem KnowsLess.of_lookups
    (entry : ∀ {path d}, c'.entryAt? path = some d →
      c.entryAt? path = some d ∨ path = root ∧ d.isFolder)
    (children : ∀ {folder names}, c'.childNames? folder = some names →
      ∃ more, c.childNames? folder = some more ∧ ∀ name ∈ names, name ∈ more) :
    c.KnowsLess c' := by
  refine ⟨?_, ?_, children⟩
  · rintro path ⟨d, found, file⟩
    rcases entry found with known | ⟨-, folderly⟩
    · exact ⟨d, known, file⟩
    · rw [file] at folderly
      cases folderly
  · rintro above ⟨path, found, below⟩
    obtain ⟨d, found⟩ := Option.isSome_iff_exists.mp found
    rcases entry found with known | ⟨top, -⟩
    · exact ⟨path, Option.isSome_of_eq_some known, below⟩
    · rw [top] at below
      exact absurd below (not_isBelow_root (isNormal_normalize above))

theorem knowsLess_of_nodes (same : c'.nodes = c.nodes) : c.KnowsLess c' := by
  refine .of_lookups (fun found => Or.inl ?_) fun found => ⟨_, ?_, fun _ => id⟩
  · rwa [entryAt?, same] at found
  · rwa [childNames?, same] at found

theorem knowsLess_invalidate (c : Cache) (folder : String) : c.KnowsLess (c.invalidate folder) := by
  refine .of_lookups (fun found => Or.inl ?_) fun found => ⟨_, ?_, fun _ => id⟩
  · rw [entryAt?_invalidate] at found
    split at found
    · cases found
    · exact found
  · rw [childNames?_invalidate] at found
    split at found
    · cases found
    · exact found

theorem knowsLess_of_rootOnly (bare : c'.nodes = rootOnly) : c.KnowsLess c' := by
  refine .of_lookups (fun found => Or.inr ?_) fun found => ?_
  · rw [entryAt?_of_rootOnly bare] at found
    split at found
    · next top =>
      cases found
      exact ⟨top.symm, rfl⟩
    · cases found
  · rw [childNames?_of_rootOnly bare] at found
    cases found

theorem knowsLess_remove (c : Cache) (path : String) : c.KnowsLess (c.remove path) := by
  cases parent : parent? (normalize path) with
  | none =>
    rw [remove, parent]
    exact knowsLess_of_rootOnly rfl
  | some above =>
    refine .of_lookups (fun found => Or.inl ?_) fun {folder names} found => ?_
    · rw [entryAt?_remove _ parent] at found
      split at found
      · cases found
      · exact found
    · rw [childNames?_remove _ parent] at found
      split at found
      · cases found
      · split at found
        · obtain ⟨more, listed, rfl⟩ := Option.map_eq_some_iff.mp found
          exact ⟨more, listed, fun name member => (Std.TreeSet.mem_erase.mp member).2⟩
        · exact ⟨names, found, fun _ => id⟩

/-- An operation notes an object, or it installs a listing, or less is known after it. -/
theorem Operation.apply_cases (c : Cache) (o : Operation) :
    (∃ e path, o = .add e path) ∨ (∃ folder entries, o.Installs c folder entries) ∨
      (∀ e path, o ≠ .add e path) ∧ (∀ folder entries, ¬ o.Installs c folder entries) ∧
        c.KnowsLess (o.apply c) := by
  cases o with
  | add e path => exact Or.inl ⟨e, path, rfl⟩
  | addChildren folder entries => exact Or.inr (Or.inl ⟨_, _, rfl, rfl⟩)
  | invalidate folder =>
    exact Or.inr (Or.inr
      ⟨fun _ _ => Operation.noConfusion, fun _ _ => id, knowsLess_invalidate c folder⟩)
  | remove path =>
    exact Or.inr (Or.inr ⟨fun _ _ => Operation.noConfusion, fun _ _ => id, knowsLess_remove c path⟩)
  | clear =>
    exact Or.inr (Or.inr
      ⟨fun _ _ => Operation.noConfusion, fun _ _ => id, knowsLess_of_rootOnly rfl⟩)
  | beginFetch folder =>
    refine Or.inr (Or.inr ⟨fun _ _ => Operation.noConfusion, fun _ _ => id, knowsLess_of_nodes ?_⟩)
    cases claimed : (c.beginFetch folder).1 with
    | true => exact (beginFetch_of_claimed c folder claimed).1
    | false => rw [apply, beginFetch_of_refused c folder claimed]
  | finishFetch folder listing =>
    rcases finishFetch_cases c folder listing with ⟨-, refused⟩ | ⟨entries, rfl, -, installed⟩
    · refine Or.inr (Or.inr
        ⟨fun _ _ => Operation.noConfusion, fun _ _ installs => ?_, knowsLess_of_nodes ?_⟩)
      · have got := installs.2.2
        rw [refused] at got
        cases got
      · rw [apply, refused]
        rfl
    · exact Or.inr (Or.inl ⟨_, _, rfl, rfl, by rw [installed]⟩)

/-- An operation installs one listing of one folder at most. -/
theorem Operation.Installs.unique {other : String} {others : List Entry}
    (installs : o.Installs c folder entries) (installs' : o.Installs c other others) :
    folder = other ∧ entries = others := by
  cases o with
  | addChildren =>
    obtain ⟨rfl, rfl⟩ := installs
    exact installs'
  | finishFetch =>
    obtain ⟨rfl, rfl, -⟩ := installs
    exact ⟨installs'.1, Option.some.inj installs'.2.1⟩
  | _ => exact installs.elim

/-! ### Names -/

/-- Forgetting gives no child an improper name. -/
theorem ProperlyNamed.of_knowsLess (proper : c.ProperlyNamed) (less : c.KnowsLess c') :
    c'.ProperlyNamed := by
  intro folder names loaded name member
  obtain ⟨more, known, inside⟩ := less.children loaded
  exact proper _ _ known name (inside name member)

theorem properlyNamed_of_rootOnly (bare : c.nodes = rootOnly) : c.ProperlyNamed := by
  intro folder names loaded
  rw [childNames?_of_rootOnly bare] at loaded
  cases loaded

theorem ProperlyNamed.add (proper : c.ProperlyNamed) (e : Entry) (path : String) :
    (c.add e path).ProperlyNamed := by
  intro folder names loaded name member
  rw [childNames?_add] at loaded
  split at loaded
  · next parent =>
    obtain ⟨old, known, rfl⟩ := Option.map_eq_some_iff.mp loaded
    rw [Std.TreeSet.mem_insert, Std.LawfulEqCmp.compare_eq_iff_eq] at member
    rcases member with rfl | member
    · exact ((isNormal_normalize path).of_parent? parent).2.1
    · exact proper _ _ known name member
  · exact proper _ _ loaded name member

/-- A listing with proper names leaves proper names. -/
theorem ProperlyNamed.install (proper : c.ProperlyNamed) (named : ∀ e ∈ entries, IsName e.name) :
    (c.install folder entries).ProperlyNamed := by
  intro other names loaded name member
  by_cases same : other = folder
  · subst same
    obtain ⟨e, inside, rfl⟩ := List.mem_map.mp ((mem_childNames?_install_self c loaded).mp member)
    exact named e inside
  · exact proper _ _ (childNames?_of_install_of_ne c same loaded).1 name member

/-- Names stay proper under operations that heed what the cache has. -/
theorem ProperlyNamed.apply (proper : c.ProperlyNamed) (heeds : o.Heeds c) :
    (o.apply c).ProperlyNamed := by
  rcases o.apply_cases c with ⟨e, path, rfl⟩ | ⟨folder, entries, installs⟩ | ⟨-, -, less⟩
  · exact proper.add e path
  · exact (proper.install (heeds.listed installs).1).of_knowsLess
      (knowsLess_of_nodes installs.nodes)
  · exact proper.of_knowsLess less

/-! ### Noting -/

theorem get?_add (c : Cache) (e : Entry) (path other : String) : (c.add e path).get? other =
    if normalize path = normalize other then some e else c.get? other :=
  entryAt?_add c e path (normalize other)

theorem isLoaded_add (c : Cache) (e : Entry) (path other : String) :
    (c.add e path).isLoaded other = c.isLoaded other := by
  rw [isLoaded, childNames?_add, isLoaded]
  split
  · rw [Option.isSome_map]
  · rfl

/-- Noting an object keeps files bare unless it is a file whose path has children. -/
theorem FilesBare.add_iff (bare : c.FilesBare) (heeds : Operation.Heeds c (.add e path)) :
    (c.add e path).FilesBare ↔ ¬ (e.isFolder = false ∧ c.isLoaded path) := by
  obtain ⟨outside, alone⟩ := heeds.added rfl
  constructor
  · rintro bare' ⟨file, loaded⟩
    have unloaded := bare'.unloaded ⟨e, by rw [get?_add, if_pos rfl], file⟩
    rw [isLoaded_add, loaded] at unloaded
    cases unloaded
  · intro clean
    -- a file is the one that was noted or was there before
    have isFile : ∀ {file}, (c.add e path).IsFile file →
        normalize path = normalize file ∧ e.isFolder = false ∨ c.IsFile file := by
      rintro file ⟨d, found, isFile⟩
      rw [get?_add] at found
      split at found
      · next here =>
        cases found
        exact Or.inl ⟨here, isFile⟩
      · exact Or.inr ⟨d, found, isFile⟩
    refine ⟨fun {file} is => ?_, fun {file} is => ?_⟩
    · rintro ⟨other, found, below⟩
      rw [get?_add] at found
      rcases isFile is with ⟨here, noFolder⟩ | before
      · have differ : normalize path ≠ normalize other := by
          intro same
          rw [← same, ← here] at below
          exact not_isBelow_self (isNormal_normalize path) below
        rw [if_neg differ] at found
        rw [← here] at below
        rcases alone noFolder with was | nothing
        · exact bare.nothingBelow was ⟨other, found, below⟩
        · exact nothing ⟨other, found, below⟩
      · split at found
        · next here =>
          rw [← here] at below
          exact outside before below
        · exact bare.nothingBelow before ⟨other, found, below⟩
    · rw [isLoaded_add]
      rcases isFile is with ⟨here, noFolder⟩ | before
      · rw [isLoaded, ← here]
        exact Bool.eq_false_iff.mpr fun loaded => clean ⟨noFolder, loaded⟩
      · exact bare.unloaded before

/-! ### Listing -/

section Install

variable (bare : c.FilesBare) (proper : c.ProperlyNamed) (normal : IsNormal folder)
  (named : ∀ e ∈ entries, IsName e.name) (distinct : entries.Pairwise fun a b => a.name ≠ b.name)

include normal named

/-- What lies below a child that is listed stays as it is. -/
theorem get?_install_of_isBelow (proper : c.ProperlyNamed) (member : e ∈ entries)
    (below : isBelow (normalize path) (join folder e.name)) :
    (c.install folder entries).get? path = c.get? path := by
  have aside : ∀ d ∈ entries, join folder d.name ≠ normalize path := by
    intro d inside same
    rw [← same] at below
    exact not_isBelow_join_join normal (named d inside) (named e member) below
  have stays : c.isGone folder entries (normalize path) = false := by
    refine Bool.eq_false_iff.mpr fun gone => ?_
    obtain ⟨name, isName, unlisted, within⟩ :=
      exists_of_isGone normal (isNormal_normalize path) gone (proper folder)
    exact unlisted e member (eq_of_isWithin_join (isNormal_normalize path) normal (named e member)
      isName (isWithin_iff.mpr (Or.inr below)) within)
  exact (entryAt?_install_of_notMem c aside).trans (by rw [stays, if_neg Bool.false_ne_true]; rfl)

omit normal named in
/-- What is found elsewhere after a listing was there before. -/
theorem get?_of_install (aside : ∀ d ∈ entries, join folder d.name ≠ normalize path)
    (found : (c.install folder entries).get? path = some e) : c.get? path = some e := by
  have before : (c.install folder entries).entryAt? (normalize path) = some e := found
  rw [entryAt?_install_of_notMem c aside] at before
  split at before
  · cases before
  · exact before

include distinct

private theorem get?_install_of_mem (member : e ∈ entries)
    (here : join folder e.name = normalize path) :
    (c.install folder entries).get? path = some e := by
  change (c.install folder entries).entryAt? (normalize path) = some e
  rw [← here, entryAt?_install_of_mem c normal named distinct member]

include bare proper

/-- A listing keeps files bare unless it names a child as a file below which something is known. -/
theorem FilesBare.install_iff
    (outside : ∀ {file}, c.IsFile file → ¬ isWithin folder (normalize file)) :
    (c.install folder entries).FilesBare ↔
      ∀ e ∈ entries, e.isFolder = false → ¬ c.HasBelow (join folder e.name) := by
  have child : ∀ {e}, e ∈ entries → join folder e.name = normalize (join folder e.name) :=
    fun member => (normalize_of_isNormal (normal.join (named _ member))).symm
  constructor
  · rintro bare' e member file ⟨path, found, below⟩
    have is : (c.install folder entries).IsFile (join folder e.name) :=
      ⟨e, get?_install_of_mem normal named distinct member (child member), file⟩
    have inside := below
    rw [← child member] at inside
    refine bare'.nothingBelow is ⟨path, ?_, below⟩
    rw [get?_install_of_isBelow normal named proper member inside]
    exact found
  · intro clean
    -- a file is a child that is listed, or it was there before
    have isFile : ∀ {file}, (c.install folder entries).IsFile file →
        (∃ e ∈ entries, join folder e.name = normalize file ∧ e.isFolder = false) ∨
          c.IsFile file := by
      rintro file ⟨d, found, isFile⟩
      by_cases listed : ∃ e ∈ entries, join folder e.name = normalize file
      · obtain ⟨e, member, here⟩ := listed
        rw [get?_install_of_mem normal named distinct member here, Option.some.injEq] at found
        exact Or.inl ⟨e, member, here, found ▸ isFile⟩
      · exact Or.inr ⟨d, get?_of_install (fun e member here => listed ⟨e, member, here⟩) found,
          isFile⟩
    refine ⟨fun {file} is => ?_, fun {file} is => ?_⟩
    · rintro ⟨path, found, below⟩
      rcases isFile is with ⟨e, member, here, noFolder⟩ | before
      · rw [← here] at below
        rw [get?_install_of_isBelow normal named proper member below] at found
        rw [child member] at below
        exact clean e member noFolder ⟨path, found, below⟩
      · obtain ⟨d, found⟩ := Option.isSome_iff_exists.mp found
        by_cases listed : ∃ e ∈ entries, join folder e.name = normalize path
        · obtain ⟨e, member, here⟩ := listed
          rw [← here, isBelow_join_iff normal (named e member) (isNormal_normalize file)] at below
          exact outside before below
        · have known := get?_of_install (fun e member here => listed ⟨e, member, here⟩) found
          exact bare.nothingBelow before ⟨path, Option.isSome_of_eq_some known, below⟩
    · refine Option.isSome_eq_false_iff.mpr (Option.isNone_iff_eq_none.mpr ?_)
      refine Option.eq_none_iff_forall_ne_some.mpr fun names loaded => ?_
      rcases isFile is with ⟨e, member, here, noFolder⟩ | before
      · have differ : normalize file ≠ folder := by
          intro same
          have below := isBelow_join_self normal (named e member)
          rw [here, same] at below
          exact not_isBelow_self normal below
        have folderly :=
          (childNames?_of_install c normal named distinct differ loaded).2.2 e member here
        rw [noFolder] at folderly
        cases folderly
      · have differ : normalize file ≠ folder := fun same =>
          outside before (same ▸ isWithin_self _)
        have known := (childNames?_of_install_of_ne c differ loaded).1
        have unloaded := bare.unloaded before
        rw [isLoaded, known] at unloaded
        cases unloaded

end Install

/-! ### Histories -/

/-- Forgetting puts nothing below a file. -/
theorem FilesBare.of_knowsLess (bare : c.FilesBare) (less : c.KnowsLess c') : c'.FilesBare := by
  refine ⟨fun is below => bare.nothingBelow (less.files is) (less.below below), fun {file} is => ?_⟩
  refine Bool.eq_false_iff.mpr fun loaded => ?_
  obtain ⟨names, loaded⟩ := Option.isSome_iff_exists.mp loaded
  obtain ⟨more, known, -⟩ := less.children loaded
  have unloaded := bare.unloaded (less.files is)
  rw [isLoaded, known] at unloaded
  cases unloaded

theorem filesBare_of_rootOnly (nodes : c.nodes = rootOnly) : c.FilesBare := by
  have noFile : ∀ {file}, ¬ c.IsFile file := by
    rintro file ⟨e, found, isFile⟩
    have known : c.entryAt? (normalize file) = some e := found
    rw [entryAt?_of_rootOnly nodes] at known
    split at known
    · cases known
      cases isFile
    · cases known
  exact ⟨fun is => absurd is noFile, fun is => absurd is noFile⟩

/-- An operation that tells of nothing inside files keeps files bare unless it strands something. -/
theorem FilesBare.apply_iff (bare : c.FilesBare) (proper : c.ProperlyNamed) (heeds : o.Heeds c) :
    (o.apply c).FilesBare ↔ ¬ o.Strands c := by
  rcases o.apply_cases c with ⟨e, path, rfl⟩ | ⟨folder, entries, installs⟩ | ⟨noted, listed, less⟩
  · refine (bare.add_iff heeds).trans
      (not_congr ⟨fun both => .noted both.1 both.2, fun strands => ?_⟩)
    cases strands with
    | noted file loaded => exact ⟨file, loaded⟩
    | listed installs => exact installs.elim
  · obtain ⟨named, distinct, outside⟩ := heeds.listed installs
    have same : (o.apply c).FilesBare ↔ (c.install folder entries).FilesBare :=
      ⟨(·.of_knowsLess (knowsLess_of_nodes installs.nodes.symm)),
        (·.of_knowsLess (knowsLess_of_nodes installs.nodes))⟩
    rw [same, bare.install_iff proper installs.isNormal named distinct outside]
    constructor
    · intro clean strands
      cases strands with
      | noted => exact installs.elim
      | listed installs' member file below =>
        obtain ⟨rfl, rfl⟩ := installs.unique installs'
        exact clean _ member file below
    · exact fun clean e member file below => clean (.listed installs member file below)
  · refine iff_of_true (bare.of_knowsLess less) fun strands => ?_
    cases strands with
    | noted => exact noted _ _ rfl
    | listed installs => exact listed _ _ installs

/-- Whatever is told to a new cache, as long as it is not told of anything inside a file: the cache
has nothing below files and no children of them, all the time, exactly if nothing is stranded, that
is, if no object is noted as a file whose path has children and no listing names a file below which
something is known. -/
theorem filesBare_along_iff
    (heed : ∀ (n : Nat) (o : Operation), operations[n]? = some o →
      o.Heeds (empty.after (operations.take n))) :
    (∀ n, (empty.after (operations.take n)).FilesBare) ↔
      ∀ (n : Nat) (o : Operation), operations[n]? = some o →
        ¬ o.Strands (empty.after (operations.take n)) := by
  have proper := forall_foldl_take (properlyNamed_of_rootOnly rfl) fun n o next proper =>
    ProperlyNamed.apply proper (heed n o next)
  exact forall_foldl_take_iff (filesBare_of_rootOnly rfl) fun n o next bare =>
    bare.apply_iff (proper n) (heed n o next)

/-! ### Listings that turn folders into files -/

def files (c : Cache) : List String :=
  (c.nodes.toList.filter fun (_, node) => node.entry.any fun e => !e.isFolder).map Prod.fst

/-- A file is among the normal paths of files, however it is spelled. -/
theorem mem_files_of_isFile (is : c.IsFile path) : normalize path ∈ c.files := by
  obtain ⟨e, found, file⟩ := is
  obtain ⟨node, here, told⟩ := Option.bind_eq_some_iff.mp found
  refine List.mem_map.mpr ⟨(_, node), List.mem_filter.mpr ⟨?_, ?_⟩, rfl⟩
  · exact Std.TreeMap.mem_toList_iff_getElem?_eq_some.mpr here
  · simp [told, file]

/-- Something below a path has a node of its own there. -/
theorem exists_key_of_hasBelow (below : c.HasBelow path) :
    ∃ key ∈ c.nodes.keys, isBelow key (normalize path) := by
  obtain ⟨other, found, below⟩ := below
  have node : normalize other ∈ c.nodes :=
    Std.TreeMap.mem_iff_isSome_getElem?.mpr (Option.isSome_of_isSome_bind found)
  exact ⟨normalize other, Std.TreeMap.mem_keys.mpr node, below⟩

/-- A listing of one entry heeds a cache that has no file at the folder or above it. -/
theorem heeds_addChildren (isName : IsName e.name)
    (outside : ∀ file ∈ c.files, ¬ isWithin (normalize folder) file) :
    Operation.Heeds c (.addChildren folder [e]) := by
  refine ⟨nofun, fun installs => ?_⟩
  obtain ⟨rfl, rfl⟩ := installs
  exact ⟨List.forall_mem_singleton.mpr isName, List.pairwise_singleton ..,
    fun is => outside _ (mem_files_of_isFile is)⟩

/-- A listing of one entry strands nothing if no node lies below what it says is a file. -/
theorem not_strands_addChildren
    (clean : e.isFolder = false →
      ∀ key ∈ c.nodes.keys, ¬ isBelow key (normalize (join (normalize folder) e.name))) :
    ¬ Operation.Strands c (.addChildren folder [e]) := by
  intro strands
  cases strands with
  | listed installs member file below =>
    obtain ⟨rfl, rfl⟩ := installs
    obtain rfl := List.mem_singleton.mp member
    obtain ⟨key, node, inside⟩ := exists_key_of_hasBelow below
    exact clean file key node inside

private theorem isName_d_f : IsName "d" ∧ IsName "f" := by
  simp only [IsName, IsComponent]
  decide +kernel

private def turned : List Operation :=
  [.addChildren "/" [⟨"d", .folder, 1, 0, none⟩], .addChildren "d/" [⟨"f", .file, 2, 0, none⟩],
    .addChildren "/" [⟨"d", .file, 3, 0, none⟩]]

private def emptied : List Operation :=
  [.addChildren "/" [⟨"d", .folder, 1, 0, none⟩], .addChildren "d/" [⟨"f", .file, 2, 0, none⟩],
    .remove "/d/f", .addChildren "/" [⟨"d", .file, 3, 0, none⟩]]

/-- What was in a folder may be removed before the folder is listed as a file. -/
theorem filesBare_along_emptied :
    (∀ (n : Nat) (o : Operation), emptied[n]? = some o → o.Heeds (empty.after (emptied.take n))) ∧
    (∀ n, (empty.after (emptied.take n)).FilesBare) ∧
    (empty.after (emptied.take 3)).isLoaded "/d" = true ∧ (empty.after emptied).IsFile "/d" ∧
      (empty.after emptied).isLoaded "/d" = false := by
  have heed : ∀ (n : Nat) (o : Operation), emptied[n]? = some o →
      o.Heeds (empty.after (emptied.take n)) := by
    intro n o next
    rcases n with _ | _ | _ | _ | n
    · cases next
      exact heeds_addChildren isName_d_f.1 (by decide +kernel)
    · cases next
      exact heeds_addChildren isName_d_f.2 (by decide +kernel)
    · cases next
      exact ⟨nofun, fun installs => installs.elim⟩
    · cases next
      exact heeds_addChildren isName_d_f.1 (by decide +kernel)
    · cases next
  have bare := (filesBare_along_iff heed).mpr fun n o next => by
    rcases n with _ | _ | _ | _ | n
    · cases next
      exact not_strands_addChildren (by decide +kernel)
    · cases next
      exact not_strands_addChildren (by decide +kernel)
    · cases next
      intro strands
      cases strands with
      | listed installs => exact installs.elim
    · cases next
      exact not_strands_addChildren (by decide +kernel)
    · cases next
  have is : (empty.after emptied).IsFile "/d" := ⟨⟨"d", .file, 3, 0, none⟩, by decide +kernel, rfl⟩
  exact ⟨heed, bare, by decide +kernel, is, (bare 4).unloaded is⟩

/-- A folder with a file in it is listed as a file itself, and the file in it is still found. -/
theorem exists_below_file :
    (∀ (n : Nat) (o : Operation), turned[n]? = some o → o.Heeds (empty.after (turned.take n))) ∧
    (empty.after turned).IsFile "/d" ∧ isBelow "/d/f" "/d" ∧
      (empty.after turned).get? "/d/f" = some ⟨"f", .file, 2, 0, none⟩ := by
  refine ⟨fun n o next => ?_, ⟨⟨"d", .file, 3, 0, none⟩, by decide +kernel, rfl⟩, by decide,
    by decide +kernel⟩
  rcases n with _ | _ | _ | n
  · cases next
    exact heeds_addChildren isName_d_f.1 (by decide +kernel)
  · cases next
    exact heeds_addChildren isName_d_f.2 (by decide +kernel)
  · cases next
    exact heeds_addChildren isName_d_f.1 (by decide +kernel)
  · cases next

end StoreShell.Cache
