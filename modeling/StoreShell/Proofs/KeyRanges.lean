import Mathlib.Data.String.Basic
import StoreShell.Proofs.CacheLookups

/-! # Ranges of keys

The nodes of a cache are in the order of their paths, and in this order the texts that begin with one
text are neighbours. So what is below a folder, and what is directly in it, can be read off one range
of keys: from the first key that is not before `front folder` up to the first one that does not begin
with it. `sweepBelow` and `rangeNames` do so, and come to what `withoutBelow` and `directNames` find
by looking at every node. A sibling such as `/a-b` or `/a.b` lies between `/a` and `/a/x`, but not
in the range of `/a`; the range of the root begins with the root itself.
-/

namespace StoreShell.Cache

open StoreShell.Path

/-- The keys that begin with a text, read from the text on up to the first key that does not. -/
def keysWith (nodes : Std.TreeMap String Node) (front : List Char) : List String :=
  (nodes[(String.ofList front)...*].toList.map Prod.fst).takeWhile fun path =>
    front.isPrefixOf path.toList

/-- The nodes without those strictly below a folder, which are erased key by key. -/
def sweepBelow (nodes : Std.TreeMap String Node) (folder : String) : Std.TreeMap String Node :=
  ((keysWith nodes (front folder)).filter (· ≠ root)).foldl Std.TreeMap.erase nodes

/-- What is left of the keys in the range of a folder behind `front folder`, where it is a name. -/
def rangeNames (nodes : Std.TreeMap String Node) (folder : String) : List String :=
  (((keysWith nodes (front folder)).map fun path => path.toList.drop (front folder).length).filter
    fun rest => !rest.isEmpty && !rest.contains '/').map String.ofList

/-! ### Texts that begin alike -/

/-- What lies between a text and one that begins with it begins with it as well. -/
theorem prefix_of_le_of_le {front first last : List Char} (above : front ≤ first)
    (upTo : first ≤ last) (begins : front <+: last) : front <+: first := by
  induction front generalizing first last with
  | nil => exact List.nil_prefix
  | cons x rest ih =>
    obtain ⟨more, rfl⟩ := begins
    rw [List.cons_append] at upTo
    rw [← not_lt] at above upTo
    cases first with
    | nil => exact absurd (List.nil_lt_cons x rest) above
    | cons y first =>
      rw [List.cons_lt_cons_iff, not_or, not_and] at above upTo
      -- neither first character is before the other, so they are the same
      obtain rfl : x = y := le_antisymm (not_lt.mp above.1) (not_lt.mp upTo.1)
      exact List.cons_prefix_cons.mpr ⟨rfl, ih (not_lt.mp (above.2 rfl)) (not_lt.mp (upTo.2 rfl))
        (List.prefix_append ..)⟩

variable {nodes : Std.TreeMap String Node} {folder path name : String}

/-- A tree map gives its keys in strictly ascending order. -/
theorem ascending_keys (nodes : Std.TreeMap String Node) : nodes.keys.Pairwise (· < ·) :=
  Std.TreeMap.ordered_keys.imp compare_lt_iff_lt.mp

/-- The range of a text has all keys that begin with it. -/
theorem keysWith_eq_filter (nodes : Std.TreeMap String Node) (front : List Char) :
    keysWith nodes front = nodes.keys.filter fun path => front.isPrefixOf path.toList := by
  have fromFront : nodes[(String.ofList front)...*].toList.map Prod.fst =
      nodes.keys.filter fun path => (compare path (String.ofList front)).isGE := by
    rw [Std.TreeMap.toList_rci compare, ← Std.TreeMap.map_fst_toList_eq_keys, List.filter_map]
    rfl
  have isGE : ∀ path : String, (compare path (String.ofList front)).isGE ↔ front ≤ path.toList := by
    intro path
    rw [Ordering.isGE_iff_ne_lt, compare_lt_iff_lt.not, not_lt, String.le_iff_toList_le,
      String.toList_ofList]
  rw [keysWith, fromFront]
  refine takeWhile_filter_eq_filter (fun path begins => ?_) ?_
  · exact (isGE path).mpr (not_lt.mp (List.isPrefixOf_iff_prefix.mp begins).le)
  · -- a key between the text and a key that begins with it does so too, so none comes too late
    refine (ascending_keys nodes).imp fun {first last} before reached begins => ?_
    rw [List.isPrefixOf_iff_prefix] at begins ⊢
    exact prefix_of_le_of_le ((isGE first).mp reached)
      (String.le_iff_toList_le.mp (le_of_lt before)) begins

/-- No key that begins with a text is missed when reading stops at the first one that does not. -/
theorem mem_keysWith_iff {front : List Char} :
    path ∈ keysWith nodes front ↔ path ∈ nodes ∧ front <+: path.toList := by
  rw [keysWith_eq_filter, List.mem_filter, Std.TreeMap.mem_keys, List.isPrefixOf_iff_prefix]

/-! ### What is below a folder -/

/-- Erasing keys one by one erases these keys and no other. -/
theorem getElem?_foldl_erase (keys : List String) : (keys.foldl Std.TreeMap.erase nodes)[path]? =
    if path ∈ keys then none else nodes[path]? := by
  induction keys generalizing nodes with
  | nil => rw [List.foldl_nil, if_neg List.not_mem_nil]
  | cons key rest ih =>
    rw [List.foldl_cons, ih, Std.TreeMap.getElem?_erase]
    by_cases here : key = path
    · simp [here]
    · simp [here, Ne.symm here]

/-- Of nodes with normal paths, exactly those below the folder are erased. -/
theorem getElem?_sweepBelow (tidy : ∀ path ∈ nodes, IsNormal path) (normal : IsNormal folder) :
    (sweepBelow nodes folder)[path]? = if isBelow path folder then none else nodes[path]? := by
  rw [sweepBelow, getElem?_foldl_erase]
  by_cases node : path ∈ nodes
  · refine if_congr ?_ rfl rfl
    rw [List.mem_filter, mem_keysWith_iff, and_iff_right node, decide_eq_true_eq]
    by_cases top : path = root
    · exact iff_of_false (fun doomed => doomed.2 top) (top ▸ not_isBelow_root normal)
    · rw [isBelow_iff_begins (tidy path node) normal top, and_iff_left top]
  · rw [Std.TreeMap.getElem?_eq_none node, ite_self, ite_self]

/-! ### What is directly in a folder -/

/-- What is found in the range of a folder is what it calls by a text without a slash. -/
theorem mem_rangeNames_iff : name ∈ rangeNames nodes folder ↔
    join folder name ∈ nodes ∧ name ≠ "" ∧ '/' ∉ name.toList := by
  simp only [rangeNames, List.mem_map, List.mem_filter, mem_keysWith_iff, Bool.and_eq_true,
    Bool.not_eq_true', List.isEmpty_eq_false_iff, List.contains_eq_mem, decide_eq_false_iff_not]
  constructor
  · rintro ⟨_, ⟨⟨path, ⟨node, rest, text⟩, rfl⟩, filled, clear⟩, rfl⟩
    rw [← text, List.drop_left] at filled clear ⊢
    rw [join_ofList_eq text, String.toList_ofList]
    exact ⟨node, by simpa using filled, clear⟩
  · rintro ⟨node, filled, clear⟩
    have text := toList_join_eq_front_append folder name
    refine ⟨name.toList, ⟨⟨join folder name, ⟨node, text ▸ List.prefix_append ..⟩, ?_⟩, ?_, clear⟩,
      String.ofList_toList⟩
    · rw [text, List.drop_left]
    · simpa using filled

/-- The names in the range of a folder ascend, since their keys do and all begin alike. -/
theorem ascending_rangeNames (nodes : Std.TreeMap String Node) (folder : String) :
    (rangeNames nodes folder).Pairwise (· < ·) := by
  rw [rangeNames, List.pairwise_map]
  refine List.Pairwise.filter _ (List.pairwise_map.mpr ?_)
  have keys : (keysWith nodes (front folder)).Pairwise (· < ·) :=
    keysWith_eq_filter nodes _ ▸ (ascending_keys nodes).filter _
  refine keys.imp_of_mem fun {first last} member member' before => ?_
  obtain ⟨-, rest, text⟩ := mem_keysWith_iff.mp member
  obtain ⟨-, rest', text'⟩ := mem_keysWith_iff.mp member'
  rw [← join_ofList_eq text, ← join_ofList_eq text', join_lt_join_iff] at before
  rwa [← text, ← text', List.drop_left, List.drop_left]

/-- The range of a folder has the names that are found by looking at every node. -/
theorem rangeNames_eq_directNames (nodes : Std.TreeMap String Node) (folder : String) :
    rangeNames nodes folder = directNames nodes folder := by
  rw [rangeNames, keysWith_eq_filter, directNames]
  induction nodes.keys with
  | nil => rfl
  | cons path rest ih =>
    rw [List.filterMap_cons, ← ih]
    simp only [nameIn?, List.filter_cons]
    cases (front folder).isPrefixOf path.toList with
    | false => rfl
    | true =>
      rw [if_pos rfl, List.map_cons, List.filter_cons, Bool.true_and]
      split
      · rfl
      · rfl

/-- What is read off the ranges of keys is exact, whatever folder it is about. Sweeping what is below
a folder loses the nodes below it and no other, so never the root, and leaves what is left by
looking at every node. The names found directly in it are in ascending order without repetition,
they are the names by which it is the parent of a node, and they too are those found by looking at
every node. -/
theorem keyRanges_exact (tidy : ∀ path ∈ nodes, IsNormal path) (normal : IsNormal folder) :
    (∀ path : String,
      (sweepBelow nodes folder)[path]? = if isBelow path folder then none else nodes[path]?) ∧
    (sweepBelow nodes folder)[root]? = nodes[root]? ∧
    (∀ path : String, (sweepBelow nodes folder)[path]? = (withoutBelow nodes folder)[path]?) ∧
    (rangeNames nodes folder).Pairwise (· < ·) ∧
    (∀ name, name ∈ rangeNames nodes folder ↔
      join folder name ∈ nodes ∧ parent? (join folder name) = some folder) ∧
    rangeNames nodes folder = directNames nodes folder := by
  refine ⟨fun path => getElem?_sweepBelow tidy normal, ?_, fun path => ?_,
    ascending_rangeNames nodes folder, fun name => ?_, rangeNames_eq_directNames nodes folder⟩
  · rw [getElem?_sweepBelow tidy normal, if_neg (not_isBelow_root normal)]
  · rw [getElem?_sweepBelow tidy normal, getElem?_withoutBelow]
  · rw [mem_rangeNames_iff]
    refine and_congr_right fun node => ?_
    rw [parent?_join_eq_some_iff (tidy _ node) normal]

/-- Nodes of which many begin like `/a` without being below it, and lie around what is. -/
def siblings : Std.TreeMap String Node :=
  ["/", "/a", "/a-b", "/a-b/c", "/a.b", "/a/x", "/a/x/y", "/a/é", "/a0", "/ab/x"].foldl
    (fun nodes path => nodes.insert path {}) ∅

/-- `/a` has two children, of which one has another, and `/ab` has no node of its own. -/
theorem keyRanges_exact_siblings :
    (∀ path ∈ siblings, IsNormal path) ∧ IsNormal "/a" ∧
    (∀ path ∈ ["/", "/a", "/a-b", "/a-b/c", "/a.b", "/a0", "/ab/x"],
      (sweepBelow siblings "/a")[path]? = siblings[path]?) ∧
    (∀ path ∈ ["/a/x", "/a/x/y", "/a/é"], (sweepBelow siblings "/a")[path]? = none) ∧
    rangeNames siblings "/a" = ["x", "é"] ∧ (sweepBelow siblings "/")["/"]? = siblings["/"]? ∧
    rangeNames siblings "/" = ["a", "a-b", "a.b", "a0"] := by
  have tidy : ∀ path ∈ siblings, IsNormal path := by
    have all : ∀ path ∈ siblings.keys, normalize path = path := by decide +kernel
    exact fun path node => isNormal_iff.mpr (all path (Std.TreeMap.mem_keys.mpr node))
  have normal : IsNormal "/a" := isNormal_iff.mpr (by decide +kernel)
  obtain ⟨swept, -, -, -, -, names⟩ := keyRanges_exact tidy normal
  obtain ⟨-, top, -, -, -, names'⟩ := keyRanges_exact tidy isNormal_root
  refine ⟨tidy, normal, ?_, ?_, names.trans (by decide +kernel), top, names'.trans (by decide +kernel)⟩
  · have outside : ∀ path ∈ ["/", "/a", "/a-b", "/a-b/c", "/a.b", "/a0", "/ab/x"],
        ¬ isBelow path "/a" := by decide +kernel
    exact fun path member => (swept path).trans (if_neg (outside path member))
  · have inside : ∀ path ∈ ["/a/x", "/a/x/y", "/a/é"], isBelow path "/a" := by decide +kernel
    exact fun path member => (swept path).trans (if_pos (inside path member))

end StoreShell.Cache
