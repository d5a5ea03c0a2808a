import Mathlib.Data.String.Basic
import StoreShell.Proofs.CacheLookups

/-! # Names and nodes in step

A cache has the names of the children of a folder beside the nodes of these children, and every
operation changes both. `InStep` says how the two belong together in terms of lookups, and every
operation keeps it. `Consistent` is what a reader of the cache gets from it: the listings of folders,
the patterns matched in them, the lookups of single paths and the list of all paths tell the same.
-/

namespace StoreShell.Cache

open StoreShell.Path

/-- What can be done to a cache. -/
inductive Operation where
  | add (entry : Entry) (path : String)
  | addChildren (folder : String) (entries : List Entry)
  | invalidate (folder : String)
  | remove (path : String)
  | clear
  | beginFetch (folder : String)
  | finishFetch (folder : String) (entries : Option (List Entry))

namespace Operation

def apply (c : Cache) : Operation → Cache
  | add entry path => c.add entry path
  | addChildren folder entries => c.addChildren folder entries
  | invalidate folder => c.invalidate folder
  | remove path => c.remove path
  | clear => c.clear
  | beginFetch folder => (c.beginFetch folder).2
  | finishFetch folder entries => (c.finishFetch folder entries).2

/-- Whether entries come under their own names: one that is added bears the last component of its
path, and those of a listing have names that a folder can have for its children. -/
def WellNamed : Operation → Prop
  | add entry path => normalize path ≠ root → entry.name = fileName (normalize path)
  | addChildren _ entries | finishFetch _ (some entries) => ∀ e ∈ entries, IsName e.name
  | finishFetch _ none | invalidate _ | remove _ | clear | beginFetch _ => True

end Operation

def after (c : Cache) (operations : List Operation) : Cache := operations.foldl Operation.apply c

/-- Whether the names that a cache has for the children of folders belong to its nodes. -/
structure InStep (c : Cache) : Prop where
  tidy : c.Tidy
  root : (c.entryAt? root).isSome
  named : ∀ {path e}, path ≠ Path.root → c.entryAt? path = some e → e.name = fileName path
  names : ∀ {folder names}, c.childNames? folder = some names →
    ∀ {name}, name ∈ names ↔ IsName name ∧ (c.entryAt? (join folder name)).isSome

variable {c : Cache} {path folder : String} {entries : List Entry}

/-! ### Every operation keeps step -/

theorem InStep.of_nodes {c' : Cache} (inStep : c.InStep) (same : c'.nodes = c.nodes) : c'.InStep := by
  have entry : c'.entryAt? = c.entryAt? := by
    funext path
    rw [entryAt?, entryAt?, same]
  have names : c'.childNames? = c.childNames? := by
    funext folder
    rw [childNames?, childNames?, same]
  refine ⟨fun path member => inStep.tidy path (same ▸ member), ?_, ?_, ?_⟩
  · exact entry ▸ inStep.root
  · exact entry ▸ inStep.named
  · exact entry ▸ names ▸ inStep.names

theorem inStep_of_rootOnly (nodes : c.nodes = rootOnly) : c.InStep := by
  refine ⟨tidy_of_rootOnly nodes, ?_, ?_, ?_⟩
  · rw [entryAt?_of_rootOnly nodes, if_pos rfl]
    rfl
  · intro path e deep found
    rw [entryAt?_of_rootOnly nodes, if_neg (Ne.symm deep)] at found
    cases found
  · intro folder names found
    rw [childNames?_of_rootOnly nodes] at found
    cases found

/-- An entry that bears the last component of its path becomes a child under its own name. -/
theorem InStep.add (inStep : c.InStep) {e : Entry}
    (named : normalize path ≠ Path.root → e.name = fileName (normalize path)) :
    (c.add e path).InStep := by
  have normal := isNormal_normalize path
  refine ⟨Tidy.add e path inStep.tidy, ?_, ?_, ?_⟩
  · rw [entryAt?_add]
    split
    · rfl
    · exact inStep.root
  · intro other d deep found
    rw [entryAt?_add] at found
    split at found
    · next here =>
      cases found
      exact here ▸ named (here ▸ deep)
    · exact inStep.named deep found
  · intro folder names found name
    rw [childNames?_add] at found
    rw [entryAt?_add]
    split at found
    · next above =>
      obtain ⟨normalFolder, called, joined⟩ := normal.of_parent? above
      obtain ⟨old, listed, rfl⟩ := Option.map_eq_some_iff.mp found
      rw [Std.TreeSet.mem_insert, Std.LawfulEqCmp.compare_eq_iff_eq, inStep.names listed]
      by_cases same : fileName (normalize path) = name
      · subst same
        simp [joined, called]
      · have apart : IsName name → normalize path ≠ join folder name := by
          intro isName at_
          rw [← joined] at at_
          exact same ((join_inj normalFolder normalFolder called isName).mp at_).2
        simp only [same, false_or]
        refine and_congr_right fun isName => ?_
        rw [if_neg (apart isName)]
    · next elsewhere =>
      rw [inStep.names found]
      refine and_congr_right fun isName => ?_
      rw [if_neg]
      intro at_
      rw [at_, parent?_join (inStep.tidy.of_childNames? found) isName] at elsewhere
      exact elsewhere rfl

/-- What is forgotten takes its names with it. -/
theorem InStep.invalidate (inStep : c.InStep) (folder : String) : (c.invalidate folder).InStep := by
  have normal := isNormal_normalize folder
  refine ⟨Tidy.invalidate folder inStep.tidy, ?_, ?_, ?_⟩
  · rw [entryAt?_invalidate, if_neg (not_isBelow_root normal)]
    exact inStep.root
  · intro path e deep found
    rw [entryAt?_invalidate] at found
    split at found
    · cases found
    · exact inStep.named deep found
  · intro other names found name
    rw [childNames?_invalidate] at found
    split at found
    · cases found
    · next outside =>
      rw [inStep.names found, entryAt?_invalidate]
      refine and_congr_right fun isName => ?_
      rw [if_neg]
      rwa [isBelow_join_iff (inStep.tidy.of_childNames? found) isName normal]

theorem InStep.remove (inStep : c.InStep) (path : String) : (c.remove path).InStep := by
  cases above : parent? (normalize path) with
  | none =>
    rw [Cache.remove, above]
    exact inStep_of_rootOnly rfl
  | some parent =>
    obtain ⟨normalParent, called, joined⟩ := (isNormal_normalize path).of_parent? above
    refine ⟨inStep.tidy.remove above, ?_, ?_, ?_⟩
    · rw [entryAt?_remove _ above, if_neg]
      · exact inStep.root
      · rw [isWithin_iff]
        rintro (top | below)
        · rw [← top] at above
          cases above
        · exact not_isBelow_root (isNormal_normalize path) below
    · intro other e deep found
      rw [entryAt?_remove _ above] at found
      split at found
      · cases found
      · exact inStep.named deep found
    · intro other names found name
      rw [childNames?_remove _ above] at found
      split at found
      · cases found
      · next outside =>
        -- of the children of a folder that stays, only the one that is removed goes
        have goes : IsNormal other → IsName name →
            isWithin (join other name) (normalize path) =
              decide (parent = other ∧ fileName (normalize path) = name) := by
          intro normal isName
          rw [Bool.eq_iff_iff, isWithin_iff, isBelow_join_iff normal isName (isNormal_normalize path),
            decide_eq_true_eq, ← join_inj normalParent normal called isName, joined]
          simp [outside, eq_comm]
        rw [entryAt?_remove _ above]
        split at found
        · next same =>
          subst same
          obtain ⟨old, listed, rfl⟩ := Option.map_eq_some_iff.mp found
          rw [Std.TreeSet.mem_erase, Ne, Std.LawfulEqCmp.compare_eq_iff_eq, inStep.names listed,
            and_left_comm]
          refine and_congr_right fun isName => ?_
          rw [goes normalParent isName]
          by_cases gone : fileName (normalize path) = name
          · simp [gone]
          · simp [gone]
        · next differ =>
          have normal := inStep.tidy.of_childNames? found
          rw [inStep.names found]
          refine and_congr_right fun isName => ?_
          rw [goes normal isName, if_neg]
          simp [differ]

/-- A child that a listing does not name has no entry any more. -/
theorem entryAt?_install_of_unlisted (normal : IsNormal folder)
    (named : ∀ e ∈ entries, IsName e.name) {name : String} (isName : IsName name)
    (unlisted : ∀ e ∈ entries, e.name ≠ name) :
    (c.install folder entries).entryAt? (join folder name) = none := by
  rw [entryAt?_install_of_notMem c fun e member same =>
    unlisted e member ((join_inj normal normal (named e member) isName).mp same).2]
  split
  · rfl
  · next kept =>
    refine Option.eq_none_iff_forall_ne_some.mpr fun e found => kept ?_
    have node : join folder name ∈ c.nodes := by
      rw [Std.TreeMap.mem_iff_isSome_getElem?]
      rw [entryAt?] at found
      exact Option.isSome_of_isSome_bind (by rw [found]; rfl)
    exact (isGone_iff c).mpr
      ⟨name, mem_knownNames_of_mem_nodes normal isName node, unlisted, isWithin_self _⟩

/-- A listing puts each entry under its own name. -/
theorem InStep.install (inStep : c.InStep) (normal : IsNormal folder)
    (named : ∀ e ∈ entries, IsName e.name) : (c.install folder entries).InStep := by
  have known : ∀ names, c.childNames? folder = some names → ∀ name ∈ names, IsName name :=
    fun names listed name member => ((inStep.names listed).mp member).1
  refine ⟨inStep.tidy.install normal named, ?_, ?_, ?_⟩
  · rw [entryAt?_install_of_notMem c fun e member => join_ne_root normal (named e member), if_neg]
    · exact inStep.root
    · intro gone
      obtain ⟨name, isName, -, within⟩ := exists_of_isGone normal isNormal_root gone known
      rcases isWithin_iff.mp within with top | below
      · exact join_ne_root normal isName top.symm
      · exact not_isBelow_root (normal.join isName) below
  · intro path e deep found
    by_cases listed : ∃ d ∈ entries, join folder d.name = path
    · obtain ⟨d, member, rfl⟩ := listed
      obtain ⟨b, inside, same, here⟩ := exists_entryAt?_install c normal named member
      rw [here, Option.some.injEq] at found
      rw [← found, same, fileName_join normal (named d member)]
    · rw [entryAt?_install_of_notMem c fun d member same => listed ⟨d, member, same⟩] at found
      split at found
      · cases found
      · exact inStep.named deep found
  · intro other names found name
    by_cases same : other = folder
    · subst same
      rw [mem_childNames?_install_self c found, List.mem_map]
      constructor
      · rintro ⟨e, member, rfl⟩
        obtain ⟨d, -, -, here⟩ := exists_entryAt?_install c normal named member
        exact ⟨named e member, by rw [here]; rfl⟩
      · rintro ⟨isName, here⟩
        refine Decidable.byContradiction fun unlisted => ?_
        rw [entryAt?_install_of_unlisted normal named isName fun e member same =>
          unlisted ⟨e, member, same⟩] at here
        cases here
    · obtain ⟨old, kept⟩ := childNames?_of_install_of_ne c same found
      have normalOther := inStep.tidy.of_childNames? old
      rw [inStep.names old]
      refine and_congr_right fun isName => ?_
      rw [entryAt?_install_of_notMem c fun e member at_ =>
        same ((join_inj normal normalOther (named e member) isName).mp at_).1.symm,
        isGone_join normal known normalOther isName same, kept]
      simp

/-- Every operation that goes by proper names leaves a cache in step with itself. -/
theorem InStep.apply (inStep : c.InStep) {o : Operation} (named : o.WellNamed) :
    (o.apply c).InStep := by
  cases o with
  | add e path => exact inStep.add named
  | addChildren folder entries =>
    have touched : (c.touch (normalize folder)).InStep := inStep.of_nodes rfl
    exact touched.install (isNormal_normalize folder) named
  | invalidate folder => exact inStep.invalidate folder
  | remove path => exact inStep.remove path
  | clear => exact inStep_of_rootOnly rfl
  | beginFetch folder =>
    cases claimed : (c.beginFetch folder).1 with
    | true => exact inStep.of_nodes (beginFetch_of_claimed c folder claimed).1
    | false =>
      rw [Operation.apply, beginFetch_of_refused c folder claimed]
      exact inStep
  | finishFetch folder entries =>
    have landed : (c.landed (normalize folder)).InStep := inStep.of_nodes rfl
    rw [Operation.apply]
    rcases finishFetch_cases c folder entries with ⟨-, refused⟩ | ⟨entries, rfl, -, installed⟩
    · rw [refused]
      exact landed
    · rw [installed]
      exact landed.install (isNormal_normalize folder) named

/-- By induction on the operations. -/
theorem InStep.after (inStep : c.InStep) {operations : List Operation}
    (named : ∀ o ∈ operations, o.WellNamed) : (c.after operations).InStep := by
  induction operations generalizing c with
  | nil => exact inStep
  | cons o rest ih =>
    exact ih (inStep.apply (named o (List.mem_cons_self ..)))
      fun o member => named o (List.mem_cons_of_mem _ member)

/-! ### What a reader sees -/

/-- Whether all that a cache tells about paths and folders fits together. Folders and paths may be
spelled in any way. -/
structure Consistent (c : Cache) : Prop where
  /-- The children of a folder that is known stand in the order of their names, and they are what the
  cache has at the paths of the children. -/
  children : ∀ folder, c.isLoaded folder → ∃ entries, c.children? folder = some entries ∧
    (entries.map Entry.name).Pairwise (· < ·) ∧ (∀ e ∈ entries, IsName e.name) ∧
    ∀ name, IsName name → ∀ e, e ∈ entries ∧ e.name = name ↔ c.get? (join folder name) = some e
  /-- What belongs to a pattern in a folder that is known are the children whose names do. -/
  matching : ∀ folder entries, c.children? folder = some entries → ∀ pattern,
    c.matching folder pattern = ((entries.map Entry.name).filter
      (Glob.Pattern.ofText pattern).accepts).map (join (normalize folder))
  /-- Nothing is told about the children of other folders. -/
  unloaded : ∀ folder, c.isLoaded folder = false →
    c.children? folder = none ∧ ∀ pattern, c.matching folder pattern = []
  ascending : c.paths.Pairwise (· < ·)
  /-- The paths are those that are found, in normal form and without the root. -/
  mem_paths : ∀ path, path ∈ c.paths ↔ IsNormal path ∧ path ≠ Path.root ∧ (c.get? path).isSome
  root : (c.get? Path.root).isSome

/-- Entries that are found under their names bear the names. -/
theorem map_name_filterMap {f : String → Option Entry} {names : List String}
    (own : ∀ name ∈ names, ∃ e, e.name = name ∧ f name = some e) :
    (names.filterMap f).map Entry.name = names := by
  induction names with
  | nil => rfl
  | cons name rest ih =>
    obtain ⟨e, same, found⟩ := own name (List.mem_cons_self ..)
    rw [List.filterMap_cons_some found, List.map_cons, same,
      ih fun name member => own name (List.mem_cons_of_mem _ member)]

/-- The children of a folder that is known bear the names that the cache has for them. -/
theorem InStep.children?_eq (inStep : c.InStep) {names : Std.TreeSet String}
    (listed : c.childNames? (normalize folder) = some names) :
    ∃ entries, c.children? folder = some entries ∧ entries.map Entry.name = names.toList ∧
      ∀ e, e ∈ entries ↔ e.name ∈ names ∧
        c.entryAt? (join (normalize folder) e.name) = some e := by
  have normal := inStep.tidy.of_childNames? listed
  have own : ∀ {name}, name ∈ names → ∃ e, e.name = name ∧
      c.entryAt? (join (normalize folder) name) = some e := by
    intro name member
    obtain ⟨isName, here⟩ := (inStep.names listed).mp member
    obtain ⟨e, found⟩ := Option.isSome_iff_exists.mp here
    refine ⟨e, ?_, found⟩
    rw [inStep.named (join_ne_root normal isName) found, fileName_join normal isName]
  refine ⟨names.toList.filterMap fun name => c.entryAt? (join (normalize folder) name), ?_, ?_,
    fun e => ?_⟩
  · rw [children?, listed]
    rfl
  · exact map_name_filterMap fun name member => own (Std.TreeSet.mem_toList.mp member)
  · rw [List.mem_filterMap]
    constructor
    · rintro ⟨name, member, found⟩
      obtain ⟨d, same, here⟩ := own (Std.TreeSet.mem_toList.mp member)
      rw [here, Option.some.injEq] at found
      subst found
      exact same ▸ ⟨Std.TreeSet.mem_toList.mp member, here⟩
    · rintro ⟨member, found⟩
      exact ⟨e.name, Std.TreeSet.mem_toList.mpr member, found⟩

private theorem pairwise_lt {texts : List String}
    (ordered : texts.Pairwise fun a b => compare a b = .lt) : texts.Pairwise (· < ·) :=
  ordered.imp compare_lt_iff_lt.mp

/-- A cache in step with itself is consistent as its user sees it. -/
theorem InStep.consistent (inStep : c.InStep) : c.Consistent where
  children folder loaded := by
    obtain ⟨names, listed⟩ := Option.isSome_iff_exists.mp loaded
    have normal := inStep.tidy.of_childNames? listed
    obtain ⟨entries, known, same, mem⟩ := inStep.children?_eq listed
    refine ⟨entries, known, ?_, fun e member => ?_, fun name isName e => ?_⟩
    · rw [same]
      exact pairwise_lt Std.TreeSet.ordered_toList
    · exact ((inStep.names listed).mp ((mem e).mp member).1).1
    · rw [get?, normalize_join folder isName, mem]
      constructor
      · rintro ⟨⟨-, found⟩, rfl⟩
        exact found
      · intro found
        have called : e.name = name := by
          rw [inStep.named (join_ne_root normal isName) found, fileName_join normal isName]
        subst called
        exact ⟨⟨(inStep.names listed).mpr ⟨isName, by rw [entryAt?, found]; rfl⟩, found⟩, rfl⟩
  matching folder entries known pattern := by
    cases listed : c.childNames? (normalize folder) with
    | none =>
      rw [children?, listed] at known
      cases known
    | some names =>
      obtain ⟨entries', known', same, -⟩ := inStep.children?_eq listed
      rw [known, Option.some.injEq] at known'
      rw [Cache.matching, listed, known', same]
  unloaded folder unknown := by
    rw [isLoaded, Option.isSome_eq_false_iff, Option.isNone_iff_eq_none] at unknown
    exact ⟨by rw [children?, unknown]; rfl, fun pattern => by rw [Cache.matching, unknown]⟩
  ascending := by
    rw [paths, List.pairwise_map]
    refine List.Pairwise.filter _ ?_
    exact Std.TreeMap.ordered_keys_toList.imp compare_lt_iff_lt.mp
  mem_paths path := by
    rw [paths, List.mem_map]
    constructor
    · rintro ⟨⟨at_, node⟩, member, rfl⟩
      rw [List.mem_filter, Std.TreeMap.mem_toList_iff_getElem?_eq_some] at member
      obtain ⟨found, shown⟩ := member
      have normal : IsNormal at_ := inStep.tidy at_ (by
        rw [Std.TreeMap.mem_iff_isSome_getElem?, found]
        rfl)
      simp only [Bool.and_eq_true, decide_eq_true_eq] at shown
      refine ⟨normal, shown.1, ?_⟩
      rw [get?_of_isNormal c normal, entryAt?, found]
      exact shown.2
    · rintro ⟨normal, deep, told⟩
      rw [get?_of_isNormal c normal, entryAt?] at told
      obtain ⟨node, found⟩ := Option.isSome_iff_exists.mp (Option.isSome_of_isSome_bind told)
      rw [found] at told
      refine ⟨(path, node), ?_, rfl⟩
      rw [List.mem_filter, Std.TreeMap.mem_toList_iff_getElem?_eq_some]
      exact ⟨found, by simpa [deep] using told⟩
  root := by
    rw [get?_of_isNormal c isNormal_root]
    exact inStep.root

/-- Whatever is done to a new cache, all that it tells fits together, if entries come under their own
names. -/
theorem consistent_after {operations : List Operation} (named : ∀ o ∈ operations, o.WellNamed) :
    (Cache.empty.after operations).Consistent :=
  ((inStep_of_rootOnly rfl).after named).consistent

/-- Paths are noted in several spellings, a child is listed before its folder, and the folder is listed
without one of the children that were noted. -/
def relisting : List Operation :=
  [.add ⟨"f", .file, 1, 0, none⟩ "a//f", .addChildren "/a/b/" [⟨"c", .file, 2, 0, none⟩],
    .beginFetch "/x/../a", .finishFetch "/a" (some [⟨"b", .folder, 3, 0, none⟩]),
    .add ⟨"a", .folder, 4, 0, none⟩ "/a"]

/-- The operations of `relisting` are well-named, and what is left in the end is only what the last
listing tells. -/
theorem consistent_after_relisting : (∀ o ∈ relisting, o.WellNamed) ∧
    (Cache.empty.after relisting).Consistent ∧
      (Cache.empty.after relisting).paths = ["/a", "/a/b", "/a/b/c"] := by
  have named : ∀ o ∈ relisting, o.WellNamed := by
    simp only [relisting, List.forall_mem_cons, Operation.WellNamed, IsName, IsComponent,
      List.not_mem_nil, false_implies, implies_true, and_true]
    decide +kernel
  exact ⟨named, consistent_after named, by decide +kernel⟩

end StoreShell.Cache
