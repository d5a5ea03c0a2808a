import StoreShell.Cache
import StoreShell.Proofs.Path

/-! # What the operations of a cache do to lookups

A cache answers three questions about a path: which entry it has there, which children it knows of a
folder there, and whether a listing of the folder is on its way. A path may also have a node without
any answer, where only the way to it is known. Every operation is described by its effect on the
answers and on which paths have nodes, so that no later proof looks into the nodes.
-/

namespace StoreShell.Cache

open StoreShell.Path

/-- The entry that a cache has at a path in normal form. -/
def entryAt? (c : Cache) (path : String) : Option Entry := c.nodes[path]?.bind Node.entry

/-- Whether the listing of a folder in normal form is on its way, and stale by now. -/
def flight? (c : Cache) (folder : String) : Option Bool := c.inFlight[folder]?

/-- Whether all nodes are found under paths in normal form. -/
def Tidy (c : Cache) : Prop := ∀ path ∈ c.nodes, IsNormal path

theorem get?_of_isNormal (c : Cache) {path : String} (normal : IsNormal path) :
    c.get? path = c.entryAt? path := by
  rw [get?, normalize_of_isNormal normal, entryAt?]

/-- Only folders in normal form have known children. -/
theorem Tidy.of_childNames? {c : Cache} (tidy : c.Tidy) {folder : String}
    {names : Std.TreeSet String} (listed : c.childNames? folder = some names) : IsNormal folder := by
  refine tidy folder (Std.TreeMap.mem_iff_isSome_getElem?.mpr ?_)
  obtain ⟨node, here, -⟩ := Option.bind_eq_some_iff.mp listed
  exact Option.isSome_of_eq_some here

theorem Tidy.of_entryAt? {c : Cache} (tidy : c.Tidy) {path : String} {e : Entry}
    (known : c.entryAt? path = some e) : IsNormal path := by
  refine tidy path (Std.TreeMap.mem_iff_isSome_getElem?.mpr ?_)
  obtain ⟨node, here, -⟩ := Option.bind_eq_some_iff.mp known
  exact Option.isSome_of_eq_some here

theorem isLoaded_of_isNormal (c : Cache) {folder : String} (normal : IsNormal folder) :
    c.isLoaded folder = (c.childNames? folder).isSome := by
  rw [isLoaded, normalize_of_isNormal normal]

/-! ### Nothing but the root -/

section RootOnly

variable {c : Cache} (bare : c.nodes = rootOnly)

include bare

private theorem getElem?_of_rootOnly (path : String) : c.nodes[path]? =
    if root = path then some ⟨some (.folder "" 0), none⟩ else none := by
  simp only [bare, rootOnly, Std.TreeMap.getElem?_insert, Std.LawfulEqCmp.compare_eq_iff_eq,
    Std.TreeMap.getElem?_emptyc]

theorem entryAt?_of_rootOnly (path : String) :
    c.entryAt? path = if root = path then some (.folder "" 0) else none := by
  rw [entryAt?, getElem?_of_rootOnly bare]
  split
  · rfl
  · rfl

theorem childNames?_of_rootOnly (folder : String) : c.childNames? folder = none := by
  rw [childNames?, getElem?_of_rootOnly bare]
  split
  · rfl
  · rfl

theorem tidy_of_rootOnly : c.Tidy := by
  intro path member
  rw [Std.TreeMap.mem_iff_isSome_getElem?, getElem?_of_rootOnly bare] at member
  split at member
  · next same => exact same ▸ isNormal_root
  · cases member

end RootOnly

/-! ### Nodes -/

section Nodes

variable (nodes : Std.TreeMap String Node) (path other : String)

private abbrev entryIn? : Option Entry := nodes[other]?.bind Node.entry

private abbrev namesIn? : Option (Std.TreeSet String) := nodes[other]?.bind Node.children

private theorem getElem?_putEntry (e : Entry) : (putEntry nodes path e)[other]? =
    if path = other then some ⟨some e, namesIn? nodes path⟩ else nodes[other]? := by
  simp only [putEntry, namesIn?, Std.TreeMap.getElem?_insert, Std.LawfulEqCmp.compare_eq_iff_eq]
  cases nodes[path]? <;> rfl

private theorem getElem?_putListed (e : Entry) : (putListed nodes path e)[other]? =
    if path = other then some ⟨some e, if e.isFolder then namesIn? nodes path else none⟩
    else nodes[other]? := by
  simp only [putListed, namesIn?, Std.TreeMap.getElem?_insert, Std.LawfulEqCmp.compare_eq_iff_eq]
  cases nodes[path]? <;> rfl

private theorem getElem?_modify (f : Node → Node) : (nodes.modify path f)[other]? =
    if path = other then nodes[other]?.map f else nodes[other]? := by
  simp only [Std.TreeMap.getElem?_modify, Std.LawfulEqCmp.compare_eq_iff_eq]
  split
  · next same => rw [same]
  · rfl

/-- Exactly the nodes strictly below the folder are missing. -/
theorem getElem?_withoutBelow : (withoutBelow nodes path)[other]? =
    if isBelow other path then none else nodes[other]? := by
  rw [withoutBelow, Std.TreeMap.getElem?_filter']
  cases nodes[other]? with
  | none => simp
  | some node => cases isBelow other path <;> simp

private theorem getElem?_withoutWithin : (withoutWithin nodes path)[other]? =
    if isWithin other path then none else nodes[other]? := by
  simp only [withoutWithin, Std.TreeMap.getElem?_erase, Std.LawfulEqCmp.compare_eq_iff_eq,
    getElem?_withoutBelow, isWithin, Bool.or_eq_true, beq_iff_eq]
  by_cases same : path = other
  · simp [same]
  · simp [same, Ne.symm same]

private theorem mem_withoutBelow :
    other ∈ withoutBelow nodes path ↔ other ∈ nodes ∧ ¬ isBelow other path := by
  rw [Std.TreeMap.mem_iff_isSome_getElem?, Std.TreeMap.mem_iff_isSome_getElem?,
    getElem?_withoutBelow]
  cases isBelow other path <;> simp

private theorem mem_withoutWithin :
    other ∈ withoutWithin nodes path ↔ other ∈ nodes ∧ ¬ isWithin other path := by
  rw [Std.TreeMap.mem_iff_isSome_getElem?, Std.TreeMap.mem_iff_isSome_getElem?,
    getElem?_withoutWithin]
  cases isWithin other path <;> simp

private theorem entryIn?_adjustNames (f : Std.TreeSet String → Std.TreeSet String) :
    entryIn? (adjustNames nodes path f) other = entryIn? nodes other := by
  rw [entryIn?, entryIn?, adjustNames, getElem?_modify]
  split
  · cases nodes[other]? <;> rfl
  · rfl

private theorem namesIn?_adjustNames (f : Std.TreeSet String → Std.TreeSet String) :
    namesIn? (adjustNames nodes path f) other =
      if path = other then (namesIn? nodes other).map f else namesIn? nodes other := by
  rw [namesIn?, namesIn?, adjustNames, getElem?_modify]
  split
  · cases nodes[other]? <;> rfl
  · rfl

end Nodes

/-! ### Touching -/

section Touch

variable (c : Cache) (chosen : String → Bool) (folder : String)

theorem childNames?_touchWhere :
    (c.touchWhere chosen).childNames? folder = c.childNames? folder := rfl

/-- Making listings stale begins none and ends none. -/
theorem flight?_touchWhere :
    (c.touchWhere chosen).flight? folder = (c.flight? folder).map (· || chosen folder) := by
  rw [flight?, touchWhere, Std.TreeMap.getElem?_map, flight?]

end Touch

/-! ### Noting an object -/

section Add

variable (c : Cache) (e : Entry) (path other : String)

@[simp] theorem add_normalize : c.add e (normalize path) = c.add e path := by
  rw [add, add, normalize_normalize]

/-- A new entry is found at the normal form of its path, and nothing else changes its entry. -/
theorem entryAt?_add : (c.add e path).entryAt? other =
    if normalize path = other then some e else c.entryAt? other := by
  rw [add, entryAt?, entryAt?]
  cases parent? (normalize path) with
  | none =>
    dsimp only
    rw [getElem?_putEntry]
    split <;> rfl
  | some parent =>
    dsimp only
    rw [getElem?_putEntry]
    split
    · rfl
    · exact entryIn?_adjustNames _ _ _ _

/-- Of a new object only its folder takes note, and only if it has been listed. -/
theorem childNames?_add : (c.add e path).childNames? other =
    if parent? (normalize path) = some other then
      (c.childNames? other).map (·.insert (fileName (normalize path)))
    else c.childNames? other := by
  rw [add, childNames?, childNames?]
  cases parent? (normalize path) with
  | none =>
    rw [if_neg (by simp)]
    dsimp only
    rw [getElem?_putEntry]
    split
    · next same => rw [← same]; rfl
    · rfl
  | some parent =>
    simp only [Option.some.injEq]
    rw [getElem?_putEntry, ← namesIn?_adjustNames]
    split
    · next same => rw [← same]; rfl
    · rfl

/-- The listing of the folder that a new object is in becomes stale. -/
theorem flight?_add : (c.add e path).flight? other =
    (c.flight? other).map (· || parent? (normalize path) = some other) := by
  rw [add]
  cases parent? (normalize path) with
  | none => simp [flight?]
  | some parent =>
    refine (flight?_touchWhere c _ other).trans ?_
    simp only [Option.some.injEq, eq_comm (a := other)]

/-- Only the path of the object gets a node. -/
theorem mem_nodes_add :
    other ∈ (c.add e path).nodes ↔ normalize path = other ∨ other ∈ c.nodes := by
  rw [add]
  cases parent? (normalize path) with
  | none => simp only [putEntry, Std.TreeMap.mem_insert, Std.LawfulEqCmp.compare_eq_iff_eq]
  | some parent =>
    simp only [putEntry, adjustNames, touch, touchWhere, Std.TreeMap.mem_insert,
      Std.LawfulEqCmp.compare_eq_iff_eq, Std.TreeMap.mem_modify]

/-- A new entry is put at the normal form of its path. -/
theorem Tidy.add {c : Cache} (tidy : c.Tidy) : (c.add e path).Tidy := by
  intro other member
  rcases (mem_nodes_add c e path other).mp member with rfl | member
  · exact isNormal_normalize path
  · exact tidy other member

end Add

/-! ### Forgetting -/

section Forget

variable (c : Cache) (path other : String)

@[simp] theorem remove_normalize : c.remove (normalize path) = c.remove path := by
  rw [remove, remove, normalize_normalize]

/-- What lies strictly below the folder has no entry any more; the folder keeps its own. -/
theorem entryAt?_invalidate : (c.invalidate path).entryAt? other =
    if isBelow other (normalize path) then none else c.entryAt? other := by
  rw [invalidate, entryAt?, entryAt?]
  dsimp only
  rw [getElem?_modify, getElem?_withoutBelow]
  by_cases below : isBelow other (normalize path)
  · simp [below]
  · rw [if_neg below, if_neg below]
    split
    · cases found : c.nodes[other]? <;> simp [touchWithin, touchWhere, found]
    · rfl

/-- The folder and all folders below it have to be listed anew. -/
theorem childNames?_invalidate : (c.invalidate path).childNames? other =
    if isWithin other (normalize path) then none else c.childNames? other := by
  rw [invalidate, childNames?, childNames?]
  dsimp only
  rw [getElem?_modify, getElem?_withoutBelow]
  by_cases same : normalize path = other
  · subst same
    rw [if_pos rfl, if_pos (isWithin_self _)]
    split
    · rfl
    · cases (c.touchWithin (normalize path)).nodes[normalize path]? <;> rfl
  · rw [if_neg same]
    by_cases below : isBelow other (normalize path)
    · rw [if_pos below, if_pos (isWithin_iff.mpr (Or.inr below))]
      rfl
    · rw [if_neg below, if_neg]
      · rfl
      · exact fun within => (isWithin_iff.mp within).elim (fun eq => same eq.symm) below

/-- Listings of the folder and of those below it become stale. -/
theorem flight?_invalidate : (c.invalidate path).flight? other =
    (c.flight? other).map (· || isWithin other (normalize path)) :=
  flight?_touchWhere c _ other

theorem mem_nodes_invalidate : other ∈ (c.invalidate path).nodes ↔
    other ∈ c.nodes ∧ ¬ isBelow other (normalize path) := by
  rw [invalidate, Std.TreeMap.mem_modify, mem_withoutBelow]
  rfl

theorem Tidy.invalidate {c : Cache} (tidy : c.Tidy) : (c.invalidate path).Tidy :=
  fun other member => tidy other ((mem_nodes_invalidate c path other).mp member).1

variable {c path} {parent : String}

/-- The object has no entry any more, nor has anything below it. -/
theorem entryAt?_remove (above : parent? (normalize path) = some parent) :
    (c.remove path).entryAt? other =
      if isWithin other (normalize path) then none else c.entryAt? other := by
  rw [remove, entryAt?, entryAt?]
  simp only [above]
  refine (entryIn?_adjustNames _ _ _ _).trans ?_
  rw [entryIn?, getElem?_withoutWithin]
  split <;> rfl

/-- The folder that the object was in has it no more among its children; folders within the object are
unknown again. -/
theorem childNames?_remove (above : parent? (normalize path) = some parent) :
    (c.remove path).childNames? other =
      if isWithin other (normalize path) then none
      else if parent = other then (c.childNames? other).map (·.erase (fileName (normalize path)))
      else c.childNames? other := by
  rw [remove, childNames?, childNames?]
  simp only [above]
  refine (namesIn?_adjustNames _ _ _ _).trans ?_
  rw [namesIn?, getElem?_withoutWithin]
  split <;> split <;> rfl

/-- Listings within the object become stale, and that of the folder it was in. -/
theorem flight?_remove (above : parent? (normalize path) = some parent) :
    (c.remove path).flight? other =
      (c.flight? other).map (· || (isWithin other (normalize path) || other = parent)) := by
  rw [remove]
  simp only [above]
  refine (flight?_touchWhere _ _ other).trans ?_
  rw [touchWithin, flight?_touchWhere]
  cases c.flight? other with
  | none => rfl
  | some stale => simp [Bool.or_assoc]

theorem mem_nodes_remove (above : parent? (normalize path) = some parent) :
    other ∈ (c.remove path).nodes ↔ other ∈ c.nodes ∧ ¬ isWithin other (normalize path) := by
  rw [remove]
  simp only [above, adjustNames]
  rw [Std.TreeMap.mem_modify, mem_withoutWithin]
  rfl

/-- What is left was found under normal paths before. -/
theorem Tidy.remove (tidy : c.Tidy) (above : parent? (normalize path) = some parent) :
    (c.remove path).Tidy :=
  fun other member => tidy other ((mem_nodes_remove other above).mp member).1

end Forget

/-! ### Installing a listing -/

section Install

variable (c : Cache) {folder : String} {entries : List Entry}

/-- Whether a path lies where a listing of a folder shows that nothing is. -/
def isGone (c : Cache) (folder : String) (entries : List Entry) (path : String) : Bool :=
  (c.knownNames folder).any fun name =>
    !(Std.TreeSet.ofList (entries.map Entry.name)).contains name &&
      isWithin path (join folder name)

/-- A path is gone if it lies within a child that was known before and is not listed any more. -/
theorem isGone_iff {path : String} : c.isGone folder entries path ↔ ∃ name ∈ c.knownNames folder,
    (∀ e ∈ entries, e.name ≠ name) ∧ isWithin path (join folder name) := by
  simp only [isGone, List.any_eq_true, Bool.and_eq_true, Bool.not_eq_true',
    Std.TreeSet.contains_ofList, List.contains_eq_mem, decide_eq_false_iff_not, List.mem_map,
    not_exists, not_and, ne_eq]

private theorem getElem?_foldl_withoutWithin (nodes : Std.TreeMap String Node) (gone : List String)
    (folder other : String) :
    (gone.foldl (fun nodes name => withoutWithin nodes (join folder name)) nodes)[other]? =
      if gone.any (fun name => isWithin other (join folder name)) then none
      else nodes[other]? := by
  induction gone generalizing nodes with
  | nil => rfl
  | cons name rest ih =>
    rw [List.foldl_cons, ih, getElem?_withoutWithin, List.any_cons]
    by_cases first : isWithin other (join folder name)
    · simp [first]
    · simp [first]

private theorem getElem?_foldl_putListed_of_ne (nodes : Std.TreeMap String Node)
    {other : String} (aside : ∀ e ∈ entries, join folder e.name ≠ other) :
    (entries.foldl (fun nodes e => putListed nodes (join folder e.name) e) nodes)[other]? =
      nodes[other]? := by
  induction entries generalizing nodes with
  | nil => rfl
  | cons e rest ih =>
    rw [List.foldl_cons, ih _ fun d member => aside d (List.mem_cons_of_mem _ member),
      getElem?_putListed, if_neg (aside e (List.mem_cons_self ..))]

private theorem getElem?_foldl_putListed_of_mem (nodes : Std.TreeMap String Node)
    (normal : IsNormal folder) (named : ∀ e ∈ entries, IsName e.name)
    (distinct : entries.Pairwise fun a b => a.name ≠ b.name) {e : Entry} (member : e ∈ entries) :
    (entries.foldl (fun nodes e => putListed nodes (join folder e.name) e)
      nodes)[join folder e.name]? =
        some ⟨some e, if e.isFolder then namesIn? nodes (join folder e.name) else none⟩ := by
  induction entries generalizing nodes with
  | nil => exact absurd member List.not_mem_nil
  | cons d rest ih =>
    have apart : ∀ b ∈ rest, join folder b.name ≠ join folder d.name := by
      intro b later same
      have names := (join_inj normal normal (named b (List.mem_cons_of_mem _ later))
        (named d (List.mem_cons_self ..))).mp same
      exact (List.pairwise_cons.mp distinct).1 b later names.2.symm
    rw [List.foldl_cons]
    rcases List.mem_cons.mp member with rfl | later
    · rw [getElem?_foldl_putListed_of_ne _ apart, getElem?_putListed, if_pos rfl]
    · rw [ih _ (fun b inside => named b (List.mem_cons_of_mem _ inside))
        (List.pairwise_cons.mp distinct).2 later, namesIn?, getElem?_putListed,
        if_neg (Ne.symm (apart e later))]

private theorem exists_getElem?_foldl_putListed (nodes : Std.TreeMap String Node) {other : String}
    (listed : ∃ e ∈ entries, join folder e.name = other) :
    ∃ d ∈ entries, join folder d.name = other ∧ ∃ children,
      (entries.foldl (fun nodes e => putListed nodes (join folder e.name) e) nodes)[other]? =
        some ⟨some d, children⟩ ∧
      ∀ names, children = some names → namesIn? nodes other = some names := by
  induction entries generalizing nodes with
  | nil =>
    obtain ⟨e, member, -⟩ := listed
    cases member
  | cons d rest ih =>
    rw [List.foldl_cons]
    by_cases later : ∃ e ∈ rest, join folder e.name = other
    · obtain ⟨e, member, at_, children, found, kept⟩ := ih (putListed nodes _ d) later
      refine ⟨e, List.mem_cons_of_mem _ member, at_, children, found, fun names some => ?_⟩
      have before := kept names some
      rw [namesIn?, getElem?_putListed] at before
      split at before
      · next same =>
        rw [Option.bind_some] at before
        split at before
        · exact same ▸ before
        · cases before
      · exact before
    · obtain ⟨e, member, same⟩ := listed
      obtain rfl : e = d := (List.mem_cons.mp member).resolve_right fun inside =>
        later ⟨e, inside, same⟩
      refine ⟨e, List.mem_cons_self .., same, if e.isFolder then namesIn? nodes other else none,
        ?_, fun names some => ?_⟩
      · rw [getElem?_foldl_putListed_of_ne _ fun b inside at_ => later ⟨b, inside, at_⟩,
          getElem?_putListed, if_pos same, same]
      · split at some
        · exact some
        · cases some

private theorem getElem?_kept (other : String) :
    ((((c.knownNames folder).filter fun name =>
      !(Std.TreeSet.ofList (entries.map Entry.name)).contains name).foldl
        (fun nodes name => withoutWithin nodes (join folder name)) c.nodes)[other]?) =
      if c.isGone folder entries other then none else c.nodes[other]? := by
  rw [getElem?_foldl_withoutWithin, List.any_filter, isGone]

private theorem getElem?_install {other : String} (differ : other ≠ folder) :
    (c.install folder entries).nodes[other]? =
      (entries.foldl (fun nodes e => putListed nodes (join folder e.name) e)
        (((c.knownNames folder).filter fun name =>
          !(Std.TreeSet.ofList (entries.map Entry.name)).contains name).foldl
            (fun nodes name => withoutWithin nodes (join folder name)) c.nodes))[other]? := by
  simp only [install, Std.TreeMap.getElem?_insert, Std.LawfulEqCmp.compare_eq_iff_eq]
  rw [if_neg (Ne.symm differ)]

/-- The children of the folder are those of the listing, whatever was known of them before. -/
theorem childNames?_install_self : (c.install folder entries).childNames? folder =
    some (Std.TreeSet.ofList (entries.map Entry.name)) := by
  simp only [install, childNames?, Std.TreeMap.getElem?_insert_self, Option.bind_some]

omit c in
theorem mem_ofList_iff {names : List String} {name : String} :
    name ∈ Std.TreeSet.ofList names ↔ name ∈ names := by
  rw [Std.TreeSet.mem_ofList, List.contains_eq_mem, decide_eq_true_eq]

/-- A folder that was just listed knows the names in the listing. -/
theorem mem_childNames?_install_self {names : Std.TreeSet String}
    (found : (c.install folder entries).childNames? folder = some names) {name : String} :
    name ∈ names ↔ name ∈ entries.map Entry.name := by
  rw [childNames?_install_self, Option.some.injEq] at found
  rw [← found, mem_ofList_iff]

/-- What is listed is found at its place in the folder. -/
theorem entryAt?_install_of_mem (normal : IsNormal folder) (named : ∀ e ∈ entries, IsName e.name)
    (distinct : entries.Pairwise fun a b => a.name ≠ b.name) {e : Entry} (member : e ∈ entries) :
    (c.install folder entries).entryAt? (join folder e.name) = some e := by
  have differ : join folder e.name ≠ folder := by
    intro same
    have longer := length_lt_length_join folder (named e member)
    rw [same] at longer
    exact Nat.lt_irrefl _ longer
  rw [entryAt?, getElem?_install c differ,
    getElem?_foldl_putListed_of_mem _ normal named distinct member]
  rfl

/-- Elsewhere an entry stays unless it lies within a child that is gone. -/
theorem entryAt?_install_of_notMem {other : String}
    (aside : ∀ e ∈ entries, join folder e.name ≠ other) :
    (c.install folder entries).entryAt? other =
      if c.isGone folder entries other then none else c.entryAt? other := by
  rw [entryAt?, entryAt?]
  by_cases same : other = folder
  · subst same
    simp only [install, Std.TreeMap.getElem?_insert_self]
    rw [getElem?_foldl_putListed_of_ne _ aside, getElem?_kept]
    split
    · rfl
    · cases c.nodes[other]? <;> rfl
  · rw [getElem?_install c same, getElem?_foldl_putListed_of_ne _ aside, getElem?_kept]
    split
    · rfl
    · rfl

/-- Where a listing has entries for a path, one of them is put there. -/
theorem exists_entryAt?_install_of_listed {other : String}
    (listed : ∃ e ∈ entries, join folder e.name = other) :
    ∃ d ∈ entries, join folder d.name = other ∧
      (c.install folder entries).entryAt? other = some d := by
  by_cases same : other = folder
  · subst same
    obtain ⟨d, inside, at_, children, found, -⟩ := exists_getElem?_foldl_putListed _ listed
    refine ⟨d, inside, at_, ?_⟩
    simp only [entryAt?, install, Std.TreeMap.getElem?_insert_self]
    rw [found]
    rfl
  · obtain ⟨d, inside, at_, children, found, -⟩ := exists_getElem?_foldl_putListed _ listed
    refine ⟨d, inside, at_, ?_⟩
    rw [entryAt?, getElem?_install c same, found]
    rfl

/-- A child that a listing names has an entry of this name from the listing. -/
theorem exists_entryAt?_install (normal : IsNormal folder) (named : ∀ e ∈ entries, IsName e.name)
    {e : Entry} (member : e ∈ entries) : ∃ d ∈ entries, d.name = e.name ∧
      (c.install folder entries).entryAt? (join folder e.name) = some d := by
  obtain ⟨d, inside, same, found⟩ :=
    exists_entryAt?_install_of_listed c ⟨e, member, rfl⟩
  exact ⟨d, inside, ((join_inj normal normal (named d inside) (named e member)).mp same).2, found⟩

/-- A folder that is known after a listing of another one was known and is not gone. -/
theorem childNames?_of_install_of_ne {other : String} (differ : other ≠ folder)
    {names : Std.TreeSet String}
    (loaded : (c.install folder entries).childNames? other = some names) :
    c.childNames? other = some names ∧ c.isGone folder entries other = false := by
  have back : ∀ {nodes : Std.TreeMap String Node}, nodes[other]? =
      (if c.isGone folder entries other then none else c.nodes[other]?) →
      namesIn? nodes other = some names →
      c.childNames? other = some names ∧ c.isGone folder entries other = false := by
    intro nodes lookup found
    rw [namesIn?, lookup] at found
    split at found
    · cases found
    · next kept => exact ⟨found, Bool.eq_false_iff.mpr kept⟩
  rw [childNames?, getElem?_install c differ] at loaded
  by_cases listed : ∃ e ∈ entries, join folder e.name = other
  · obtain ⟨d, -, -, children, found, kept⟩ := exists_getElem?_foldl_putListed _ listed
    rw [found, Option.bind_some] at loaded
    exact back (getElem?_kept c _) (kept names loaded)
  · rw [getElem?_foldl_putListed_of_ne _ fun e member same => listed ⟨e, member, same⟩] at loaded
    exact back (getElem?_kept c _) loaded

/-- Other folders lose children at most, and only folders have children. -/
theorem childNames?_of_install (normal : IsNormal folder) (named : ∀ e ∈ entries, IsName e.name)
    (distinct : entries.Pairwise fun a b => a.name ≠ b.name) {other : String}
    (differ : other ≠ folder) {names : Std.TreeSet String}
    (loaded : (c.install folder entries).childNames? other = some names) :
    c.childNames? other = some names ∧ c.isGone folder entries other = false ∧
      ∀ e ∈ entries, join folder e.name = other → e.isFolder := by
  obtain ⟨old, kept⟩ := childNames?_of_install_of_ne c differ loaded
  refine ⟨old, kept, fun e member same => ?_⟩
  subst same
  rw [childNames?, getElem?_install c differ,
    getElem?_foldl_putListed_of_mem _ normal named distinct member, Option.bind_some] at loaded
  split at loaded
  · next folderly => exact folderly
  · cases loaded

/-- Beside the folder itself, the children that are listed have nodes, and what had one and is not
gone. -/
theorem mem_nodes_install {other : String} (differ : other ≠ folder) :
    other ∈ (c.install folder entries).nodes ↔ (∃ e ∈ entries, join folder e.name = other) ∨
      (other ∈ c.nodes ∧ c.isGone folder entries other = false) := by
  rw [Std.TreeMap.mem_iff_isSome_getElem?, getElem?_install c differ]
  by_cases listed : ∃ e ∈ entries, join folder e.name = other
  · obtain ⟨d, -, -, children, found, -⟩ := exists_getElem?_foldl_putListed _ listed
    rw [found]
    exact iff_of_true rfl (Or.inl listed)
  · rw [getElem?_foldl_putListed_of_ne _ fun e member same => listed ⟨e, member, same⟩,
      getElem?_kept, or_iff_right listed, Std.TreeMap.mem_iff_isSome_getElem?]
    cases c.isGone folder entries other <;> simp

/-- A listing of a folder in normal form with proper names stays within normal paths. -/
theorem Tidy.install {c : Cache} (tidy : c.Tidy) (normal : IsNormal folder)
    (named : ∀ e ∈ entries, IsName e.name) : (c.install folder entries).Tidy := by
  intro other member
  by_cases same : other = folder
  · exact same ▸ normal
  · rcases (mem_nodes_install c same).mp member with ⟨e, inside, rfl⟩ | ⟨member, -⟩
    · exact normal.join (named e inside)
    · exact tidy other member

/-- Whatever a folder is known to have on the way to a path could be a child of it. -/
theorem isName_of_mem_knownNames {c : Cache} {path : String} (normal : IsNormal folder)
    (known : ∀ names, c.childNames? folder = some names → ∀ name ∈ names, IsName name)
    (normal' : IsNormal path) {name : String} (member : name ∈ c.knownNames folder)
    (within : isWithin path (join folder name)) : IsName name := by
  rw [knownNames, List.mem_append] at member
  rcases member with listed | direct
  · cases found : c.childNames? folder with
    | none => simp [found] at listed
    | some names =>
      simp only [found, Option.map_some, Option.getD_some, Std.TreeSet.mem_toList] at listed
      exact known names found name listed
  · rw [directNames, List.mem_filterMap] at direct
    obtain ⟨key, -, found⟩ := direct
    obtain ⟨filled, clear⟩ := of_nameIn?_eq_some found
    exact isName_of_isWithin_join normal' normal filled clear within

/-- A folder is known to have every child that has a node. -/
theorem mem_knownNames_of_mem_nodes {c : Cache} {name : String} (normal : IsNormal folder)
    (named : IsName name) (node : join folder name ∈ c.nodes) : name ∈ c.knownNames folder := by
  refine List.mem_append_right _ (List.mem_filterMap.mpr ⟨_, Std.TreeMap.mem_keys.mpr node, ?_⟩)
  rw [nameIn?_join normal named normal, if_pos rfl]

/-- What is gone lies below a name that the listing lacks. -/
theorem exists_of_isGone {c : Cache} {path : String} (normal : IsNormal folder)
    (normal' : IsNormal path) (gone : c.isGone folder entries path)
    (known : ∀ names, c.childNames? folder = some names → ∀ name ∈ names, IsName name) :
    ∃ name, IsName name ∧ (∀ e ∈ entries, e.name ≠ name) ∧ isWithin path (join folder name) := by
  obtain ⟨name, member, unlisted, within⟩ := (isGone_iff c).mp gone
  exact ⟨name, isName_of_mem_knownNames normal known normal' member within, unlisted, within⟩

/-- A child of another folder is gone only if that folder is. -/
theorem isGone_join {c : Cache} (normal : IsNormal folder)
    (known : ∀ names, c.childNames? folder = some names → ∀ name ∈ names, IsName name)
    {other name : String} (normal' : IsNormal other) (named : IsName name) (differ : other ≠ folder) :
    c.isGone folder entries (join other name) = c.isGone folder entries other := by
  -- a child is where its folder is as long as the folder does not lead elsewhere by an odd name
  have within : ∀ {called}, called ∈ c.knownNames folder →
      (isWithin (join other name) (join folder called) ↔ isWithin other (join folder called)) := by
    intro called member
    have iff : IsName called → (isWithin (join other name) (join folder called) ↔
        isWithin other (join folder called)) := by
      intro isName
      have apart : join other name ≠ join folder called := fun same =>
        differ ((join_inj normal' normal named isName).mp same).1
      rw [isWithin_iff, isBelow_join_iff normal' named (normal.join isName)]
      simp only [apart, false_or]
    constructor
    · intro within
      exact (iff (isName_of_mem_knownNames normal known (normal'.join named) member within)).mp within
    · intro within
      exact (iff (isName_of_mem_knownNames normal known normal' member within)).mpr within
  rw [isGone, isGone, Bool.eq_iff_iff, List.any_eq_true, List.any_eq_true]
  refine exists_congr fun called => and_congr_right fun member => ?_
  rw [Bool.and_eq_true, Bool.and_eq_true, within member]

/-- A folder that a listing of another one does not name keeps its children unless it is gone. -/
theorem childNames?_install_of_notMem {other : String} (differ : other ≠ folder)
    (aside : ∀ e ∈ entries, join folder e.name ≠ other) :
    (c.install folder entries).childNames? other =
      if c.isGone folder entries other then none else c.childNames? other := by
  rw [childNames?, getElem?_install c differ, getElem?_foldl_putListed_of_ne _ aside,
    getElem?_kept]
  split
  · rfl
  · rfl

/-- A child that stays a folder keeps its children. -/
theorem childNames?_install_of_mem (normal : IsNormal folder) (named : ∀ e ∈ entries, IsName e.name)
    (distinct : entries.Pairwise fun a b => a.name ≠ b.name) {e : Entry} (member : e ∈ entries)
    (folderly : e.isFolder) (stays : c.isGone folder entries (join folder e.name) = false) :
    (c.install folder entries).childNames? (join folder e.name) =
      c.childNames? (join folder e.name) := by
  have differ : join folder e.name ≠ folder := by
    intro same
    have longer := length_lt_length_join folder (named e member)
    rw [same] at longer
    exact Nat.lt_irrefl _ longer
  rw [childNames?, getElem?_install c differ,
    getElem?_foldl_putListed_of_mem _ normal named distinct member, if_pos folderly,
    Option.bind_some, namesIn?, getElem?_kept, stays, if_neg Bool.false_ne_true]
  rfl

end Install

/-! ### Fetching -/

section Fetch

variable (c : Cache) (folder other : String)

/-- A cache once the claim on a folder in normal form is given back. -/
def landed : Cache := { c with inFlight := c.inFlight.erase folder }

theorem flight?_landed :
    (c.landed folder).flight? other = if folder = other then none else c.flight? other := by
  simp only [landed, flight?, Std.TreeMap.getElem?_erase, Std.LawfulEqCmp.compare_eq_iff_eq]

theorem flight?_install (entries : List Entry) :
    (c.install folder entries).flight? other = c.flight? other := rfl

/-- A listing that is not stale on arrival is installed, and its claim is given back. -/
theorem finishFetch_of_fresh {entries : List Entry}
    (fresh : c.flight? (normalize folder) = some false) :
    c.finishFetch folder (some entries) =
      (true, (c.landed (normalize folder)).install (normalize folder) entries) := by
  rw [flight?] at fresh
  simp only [finishFetch, fresh, landed, Option.getD_some, Bool.false_eq_true, if_false]

/-- A stale listing, or one that failed, only gives its claim back. -/
theorem finishFetch_of_stale {entries : Option (List Entry)}
    (stale : c.flight? (normalize folder) ≠ some false ∨ entries = none) :
    c.finishFetch folder entries = (false, c.landed (normalize folder)) := by
  rw [flight?] at stale
  cases entries with
  | none => rfl
  | some entries =>
    have late := stale.resolve_right (by simp)
    cases found : c.inFlight[normalize folder]? with
    | none => simp only [finishFetch, found, landed, Option.getD_none, if_true]
    | some stale =>
      cases stale with
      | true => simp only [finishFetch, found, landed, Option.getD_some, if_true]
      | false => exact absurd found late

/-- A listing that arrives is dropped, because it is stale or there is none, or it is installed. Its
claim is given back either way. -/
theorem finishFetch_cases (listing : Option (List Entry)) :
    ((c.flight? (normalize folder) ≠ some false ∨ listing = none) ∧
      c.finishFetch folder listing = (false, c.landed (normalize folder))) ∨
    ∃ entries, listing = some entries ∧ c.flight? (normalize folder) = some false ∧
      c.finishFetch folder listing =
        (true, (c.landed (normalize folder)).install (normalize folder) entries) := by
  by_cases stale : c.flight? (normalize folder) ≠ some false ∨ listing = none
  · exact Or.inl ⟨stale, finishFetch_of_stale c folder stale⟩
  · rw [not_or, Decidable.not_not] at stale
    obtain ⟨entries, rfl⟩ := Option.ne_none_iff_exists'.mp stale.2
    exact Or.inr ⟨entries, rfl, stale.1, finishFetch_of_fresh c folder stale.1⟩

/-- A listing is dropped if there is none, or if its claim is stale or was given back already. -/
theorem finishFetch_eq_false_iff (listing : Option (List Entry)) :
    (c.finishFetch folder listing).1 = false ↔
      listing = none ∨ c.flight? (normalize folder) ≠ some false := by
  rcases finishFetch_cases c folder listing with ⟨stale, refused⟩ | ⟨entries, rfl, fresh, installed⟩
  · rw [refused]
    exact iff_of_true rfl stale.symm
  · rw [installed, fresh]
    simp

theorem flight?_finishFetch (listing : Option (List Entry)) :
    (c.finishFetch folder listing).2.flight? other =
      if normalize folder = other then none else c.flight? other := by
  rcases finishFetch_cases c folder listing with ⟨-, refused⟩ | ⟨entries, -, -, installed⟩
  · rw [refused, flight?_landed]
  · rw [installed, flight?_install, flight?_landed]

/-- A claim is refused for folders that are known or claimed already. -/
theorem beginFetch_eq_false_iff : (c.beginFetch folder).1 = false ↔
    (c.childNames? (normalize folder)).isSome ∨ (c.flight? (normalize folder)).isSome := by
  rw [beginFetch]
  rw [Std.TreeMap.contains_eq_isSome_getElem?, flight?]
  split
  · next taken => simpa using taken
  · next free => simpa using free

/-- A claim that is refused changes nothing. -/
theorem beginFetch_of_refused (refused : (c.beginFetch folder).1 = false) :
    (c.beginFetch folder).2 = c := by
  rw [beginFetch] at refused ⊢
  split at refused
  · next taken => rw [if_pos taken]
  · cases refused

/-- A claim marks the folder as being listed, not stale yet, and changes no node. -/
theorem beginFetch_of_claimed (claimed : (c.beginFetch folder).1 = true) :
    (c.beginFetch folder).2.nodes = c.nodes ∧ ∀ other, (c.beginFetch folder).2.flight? other =
      if normalize folder = other then some false else c.flight? other := by
  rw [beginFetch] at claimed ⊢
  split at claimed
  · cases claimed
  · next free =>
    rw [if_neg free]
    refine ⟨rfl, fun other => ?_⟩
    simp only [flight?, Std.TreeMap.getElem?_insert, Std.LawfulEqCmp.compare_eq_iff_eq]

/-- A folder that can be claimed is neither known nor claimed. -/
theorem free_of_claimed (claimed : (c.beginFetch folder).1 = true) :
    c.childNames? (normalize folder) = none ∧ c.flight? (normalize folder) = none := by
  have free := (beginFetch_eq_false_iff c folder).not.mp (by rw [claimed]; decide)
  rwa [not_or, Option.not_isSome_iff_eq_none, Option.not_isSome_iff_eq_none] at free

/-- While a folder is claimed only other ones can be. -/
theorem normalize_ne_of_claimed (taken : (c.flight? other).isSome)
    (claimed : (c.beginFetch folder).1 = true) : normalize folder ≠ other := by
  rintro rfl
  rw [(free_of_claimed c folder claimed).2] at taken
  cases taken

end Fetch

/-! ### Folders listed before -/

section ForgetStale

variable {c : Cache} {path : String}

private theorem forgetStaleFrom_eq (path child : String) (depth : Nat) :
    c.forgetStaleFrom path child depth = c ∨
      ∃ folder, c.forgetStaleFrom path child depth = c.invalidate folder := by
  induction depth generalizing child with
  | zero => exact Or.inl rfl
  | succ depth ih =>
    rw [forgetStaleFrom]
    cases parent? child with
    | none => exact Or.inl rfl
    | some folder =>
      dsimp only
      split
      · split
        · exact Or.inr ⟨folder, rfl⟩
        · exact Or.inl rfl
      · exact ih folder

/-- At most one folder on the way is forgotten, with what is below it. -/
theorem forgetStale_eq (c : Cache) (path : String) :
    c.forgetStale path = c ∨ ∃ folder, c.forgetStale path = c.invalidate folder :=
  forgetStaleFrom_eq path path _

private theorem childNames?_of_forgetStaleFrom {start folder : String} {depth : Nat}
    {names : Std.TreeSet String}
    (loaded : (c.forgetStaleFrom path start depth).childNames? folder = some names) :
    c.childNames? folder = some names := by
  rcases forgetStaleFrom_eq path start depth with same | ⟨gone, same⟩
  · rwa [same] at loaded
  · rw [same, childNames?_invalidate] at loaded
    split at loaded
    · cases loaded
    · exact loaded

section Between

variable {folder child : String} {names : Std.TreeSet String}

private theorem exists_between (normal : IsNormal path) (normal' : IsNormal child)
    (parent : parent? child = some folder) (within : isWithin path child) (differ : child ≠ path)
    (unknown : c.entryAt? child = none) {start : String} (normal'' : IsNormal start)
    (above : isWithin path start) {depth : Nat} (deep : start.toList.length ≤ depth)
    (skipped : ∀ middle, IsNormal middle → isBelow path middle → isWithin middle start →
      c.childNames? middle = none)
    (loaded : (c.forgetStaleFrom path start depth).childNames? folder = some names) :
    ∃ middle names, IsNormal middle ∧ isWithin middle child ∧ isBelow path middle ∧
      c.childNames? middle = some names := by
  have normalFolder := (normal'.of_parent? parent).1
  have pathBelow := isBelow_of_isWithin_parent? normal normal' within parent
  have outside : ¬ isWithin folder start := by
    intro inside
    have missing := skipped folder normalFolder pathBelow inside
    rw [childNames?_of_forgetStaleFrom loaded] at missing
    cases missing
  induction depth generalizing start with
  | zero =>
    obtain ⟨cs, -, rfl⟩ := normal''
    simp [ofComponents] at deep
  | succ depth ih =>
    rw [forgetStaleFrom] at loaded
    cases parent' : parent? start with
    | none =>
      rw [(parent?_eq_none_iff normal'').mp parent'] at outside
      exact absurd (isWithin_root folder) outside
    | some next =>
      have normalNext := (normal''.of_parent? parent').1
      have nextBelow := isBelow_of_isWithin_parent? normal normal'' above parent'
      -- whatever lies between the next folder and the path has been looked at
      have seen : ∀ middle, IsNormal middle → isBelow path middle → isBelow middle next →
          isWithin middle start := fun middle normalMiddle below deeper =>
        isWithin_of_isBelow_parent? normal normalMiddle normal'' (isWithin_iff.mpr (Or.inr below))
          above parent' deeper
      simp only [parent', isLoaded_of_isNormal c normalNext] at loaded
      split at loaded
      · next known =>
        obtain ⟨names', known⟩ := Option.isSome_iff_exists.mp known
        refine ⟨next, names', normalNext, ?_, nextBelow, known⟩
        rcases isWithin_or_isWithin normal normalNext normal' (isWithin_iff.mpr (Or.inr nextBelow))
          within with inside | around
        · exact inside
        · rcases isWithin_iff.mp around with rfl | deeper
          · exact isWithin_self child
          · rcases isWithin_iff.mp ((isBelow_iff_of_parent? normal' parent normalNext).mp deeper)
              with rfl | under
            · -- the folder itself was looked at, but it does not know the child
              obtain rfl := eq_of_parent?_of_isWithin normal normal'' normal' above within parent'
                parent
              rw [if_pos] at loaded
              · rw [childNames?_invalidate, normalize_of_isNormal normalFolder,
                  if_pos (isWithin_self folder)] at loaded
                cases loaded
              · simp [differ, get?_of_isNormal c normal'', unknown]
            · exact absurd (seen folder normalFolder pathBelow under) outside
      · next unloaded =>
        refine ih normalNext (isWithin_iff.mpr (Or.inr nextBelow)) ?_ ?_ loaded ?_
        · have shorter := length_parent? normal'' parent'
          omega
        · intro middle normalMiddle below inside
          rcases isWithin_iff.mp inside with rfl | deeper
          · exact Option.not_isSome_iff_eq_none.mp unloaded
          · exact skipped middle normalMiddle below (seen middle normalMiddle below deeper)
        · intro inside
          rcases isWithin_iff.mp inside with rfl | deeper
          · exact unloaded (childNames?_of_forgetStaleFrom loaded ▸ rfl)
          · exact outside (seen folder normalFolder pathBelow deeper)

/-- A folder that is still listed afterwards knows the child that leads to the path, unless another
listed folder lies between. -/
theorem childNames?_of_forgetStale (normal : IsNormal path) (normal' : IsNormal child)
    (parent : parent? child = some folder) (within : isWithin path child) (differ : child ≠ path)
    (unknown : c.entryAt? child = none)
    (loaded : (c.forgetStale path).childNames? folder = some names) :
    ∃ middle names, IsNormal middle ∧ isWithin middle child ∧ isBelow path middle ∧
      c.childNames? middle = some names := by
  refine exists_between normal normal' parent within differ unknown normal (isWithin_self path)
    (Nat.le_refl _) ?_ loaded
  intro middle normalMiddle below inside
  exact absurd inside (not_isWithin_of_isBelow normal normalMiddle below)

end Between

end ForgetStale

/-! ### Claims

Whatever is told to a cache leaves the claims of listings where they are. -/

section Claims

variable (c : Cache) (path other : String)

theorem isSome_flight?_touchWhere (chosen : String → Bool) :
    ((c.touchWhere chosen).flight? other).isSome = (c.flight? other).isSome := by
  rw [flight?_touchWhere, Option.isSome_map]

theorem isSome_flight?_add (e : Entry) :
    ((c.add e path).flight? other).isSome = (c.flight? other).isSome := by
  rw [flight?_add, Option.isSome_map]

theorem isSome_flight?_addChildren (entries : List Entry) :
    ((c.addChildren path entries).flight? other).isSome = (c.flight? other).isSome :=
  isSome_flight?_touchWhere c other _

theorem isSome_flight?_invalidate :
    ((c.invalidate path).flight? other).isSome = (c.flight? other).isSome := by
  rw [flight?_invalidate, Option.isSome_map]

theorem isSome_flight?_clear : (c.clear.flight? other).isSome = (c.flight? other).isSome :=
  isSome_flight?_touchWhere c other _

theorem isSome_flight?_remove :
    ((c.remove path).flight? other).isSome = (c.flight? other).isSome := by
  cases parent : parent? (normalize path) with
  | none =>
    simp only [remove, parent]
    exact isSome_flight?_clear c other
  | some above => rw [flight?_remove other parent, Option.isSome_map]

theorem isSome_flight?_forgetStale :
    ((c.forgetStale path).flight? other).isSome = (c.flight? other).isSome := by
  rcases forgetStale_eq c path with same | ⟨folder, same⟩
  · rw [same]
  · rw [same, isSome_flight?_invalidate]

end Claims

end StoreShell.Cache
