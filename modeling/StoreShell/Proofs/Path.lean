import StoreShell.Cache
import StoreShell.Proofs.Lists
import StoreShell.Store

/-! # Normal paths form one tree

A normal path is the slash-separated text of components that can name objects. This module reads the
functions on paths off that representation once: `join`, `parent?` and `fileName` build and take
apart one tree whose root is `root`, and `isBelow` is its order. Everything later uses these facts
and `IsNormal.induct` instead of the texts. What moving and scanning do to texts is settled here as
well, in `movedPath_join`, and in `nameIn?_join` and `isBelow_iff_begins`.
-/

namespace StoreShell.Path

/-- A component that stays as it is when a path is brought into normal form. -/
def IsComponent (c : List Char) : Prop := c ≠ [] ∧ '/' ∉ c ∧ c ≠ ['.'] ∧ c ≠ ['.', '.']

/-- A text by which a folder can call an object. -/
def IsName (name : String) : Prop := IsComponent name.toList

/-- A path in normal form. -/
def IsNormal (path : String) : Prop := ∃ cs, (∀ c ∈ cs, IsComponent c) ∧ ofComponents cs = path

private def stem (cs : List (List Char)) : List Char := cs.reverse.flatMap ('/' :: ·)

private theorem stem_cons (c : List Char) (cs : List (List Char)) :
    stem (c :: cs) = stem cs ++ '/' :: c := by
  simp only [stem, List.reverse_cons, List.flatMap_append, List.flatMap_cons, List.flatMap_nil,
    List.append_nil]

private theorem stem_append (cs ds : List (List Char)) : stem (cs ++ ds) = stem ds ++ stem cs := by
  simp only [stem, List.reverse_append, List.flatMap_append]

private theorem slash_intercalate (ds : List (List Char)) (some : ds ≠ []) :
    '/' :: ['/'].intercalate ds = ds.flatMap ('/' :: ·) := by
  induction ds with
  | nil => exact absurd rfl some
  | cons d rest ih =>
    cases rest with
    | nil => simp
    | cons e rest =>
      have tail := ih (List.cons_ne_nil e rest)
      simp only [List.intercalate_cons_cons, List.flatMap_cons] at tail ⊢
      simp only [← tail, List.cons_append, List.append_assoc, List.nil_append]

private theorem toList_ofComponents {cs : List (List Char)} (some : cs ≠ []) :
    (ofComponents cs).toList = stem cs := by
  rw [ofComponents, String.toList_ofList, slash_intercalate _ (by simpa using some), stem]

theorem ofComponents_nil : ofComponents [] = root := rfl

private theorem components_ofComponents {cs : List (List Char)} (named : ∀ c ∈ cs, IsComponent c)
    (some : cs ≠ []) : components (ofComponents cs) = [] :: cs.reverse := by
  obtain ⟨d, ds, reversed⟩ := List.exists_cons_of_ne_nil (show cs.reverse ≠ [] by simpa using some)
  have joined : (ofComponents cs).toList = ['/'].intercalate ([] :: cs.reverse) := by
    rw [ofComponents, String.toList_ofList, reversed, List.intercalate_cons_cons]
    rfl
  rw [components, joined]
  refine List.splitOn_intercalate '/' ?_ (List.cons_ne_nil _ _)
  intro c member
  rcases List.mem_cons.mp member with rfl | member
  · exact List.not_mem_nil
  · exact (named c (List.mem_reverse.mp member)).2.1

private theorem foldl_follow {cs folder : List (List Char)} (named : ∀ c ∈ cs, IsComponent c) :
    cs.foldl follow folder = cs.reverse ++ folder := by
  induction cs generalizing folder with
  | nil => rfl
  | cons c rest ih =>
    obtain ⟨filled, -, notDot, notDots⟩ := named c (List.mem_cons_self ..)
    have step : follow folder c = c :: folder := by
      rw [follow, if_neg (by simp [filled, notDot]), if_neg notDots]
    rw [List.foldl_cons, step, ih fun d member => named d (List.mem_cons_of_mem _ member)]
    simp

private theorem foldl_follow_ofComponents {cs : List (List Char)} (named : ∀ c ∈ cs, IsComponent c) :
    (components (ofComponents cs)).foldl follow [] = cs := by
  by_cases none : cs = []
  · subst none
    decide
  · rw [components_ofComponents named none, List.foldl_cons]
    have first : follow [] [] = [] := rfl
    rw [first, foldl_follow (fun c member => named c (List.mem_reverse.mp member))]
    simp

private theorem normalize_ofComponents {cs : List (List Char)} (named : ∀ c ∈ cs, IsComponent c) :
    normalize (ofComponents cs) = ofComponents cs := by
  rw [normalize, foldl_follow_ofComponents named]

/-- A normal path is its own normal form. -/
theorem normalize_of_isNormal {path : String} (normal : IsNormal path) : normalize path = path := by
  obtain ⟨cs, named, rfl⟩ := normal
  exact normalize_ofComponents named

private theorem slash_notMem_splitOn {text c : List Char} (member : c ∈ text.splitOn '/') :
    '/' ∉ c := by
  intro slash
  have plain := (of_mem_splitOnP member slash).2
  simp at plain

/-- No slash is left in a component. -/
theorem slash_notMem_of_mem_components {path : String} {c : List Char}
    (member : c ∈ components path) : '/' ∉ c :=
  slash_notMem_splitOn member

private theorem isComponent_foldl_follow {cs folder : List (List Char)}
    (clear : ∀ c ∈ cs, '/' ∉ c) (named : ∀ c ∈ folder, IsComponent c) :
    ∀ c ∈ cs.foldl follow folder, IsComponent c := by
  induction cs generalizing folder with
  | nil => exact named
  | cons c rest ih =>
    refine ih (fun d member => clear d (List.mem_cons_of_mem _ member)) ?_
    intro d member
    rw [follow] at member
    split at member
    · exact named d member
    · next stays =>
      split at member
      · exact named d (List.mem_of_mem_tail member)
      · next notDots =>
        rcases List.mem_cons.mp member with rfl | member
        · simp only [Bool.or_eq_true, decide_eq_true_eq, not_or] at stays
          obtain ⟨filled, notDot⟩ := stays
          exact ⟨filled, clear d (List.mem_cons_self ..), notDot, notDots⟩
        · exact named d member

private theorem isComponent_of_mem_followed (path : String) :
    ∀ c ∈ (components path).foldl follow [], IsComponent c :=
  isComponent_foldl_follow (fun _ member => slash_notMem_splitOn member)
    fun _ member => absurd member List.not_mem_nil

/-- What `normalize` gives is a path in normal form. -/
theorem isNormal_normalize (path : String) : IsNormal (normalize path) :=
  ⟨_, isComponent_of_mem_followed path, rfl⟩

/-- A path is in normal form if and only if `normalize` leaves it as it is. -/
theorem isNormal_iff {path : String} : IsNormal path ↔ normalize path = path :=
  ⟨normalize_of_isNormal, fun same => same ▸ isNormal_normalize path⟩

/-- A normal form leads where every spelling of it leads. -/
theorem foldl_follow_normalize (path : String) :
    (components (normalize path)).foldl follow [] = (components path).foldl follow [] :=
  foldl_follow_ofComponents (isComponent_of_mem_followed path)

/-- Below the root, the components of a normal path are names behind the leading slash. -/
theorem IsNormal.components_eq {path : String} (normal : IsNormal path) (deep : path ≠ root) :
    ∃ names, names ≠ [] ∧ (∀ c ∈ names, IsComponent c) ∧ components path = [] :: names := by
  obtain ⟨cs, named, rfl⟩ := normal
  have some : cs ≠ [] := by
    rintro rfl
    exact deep ofComponents_nil
  exact ⟨cs.reverse, List.reverse_ne_nil_iff.mpr some,
    fun c member => named c (List.mem_reverse.mp member), components_ofComponents named some⟩

@[simp] theorem normalize_normalize (path : String) : normalize (normalize path) = normalize path :=
  normalize_of_isNormal (isNormal_normalize path)

/-- From wherever a path is seen, it is brought into normal form. -/
theorem isNormal_resolve (cwd path : String) : IsNormal (resolve cwd path) := by
  rw [resolve]
  split
  · exact isNormal_normalize _
  · exact isNormal_normalize _

theorem isNormal_root : IsNormal root := ⟨[], by simp, rfl⟩

@[simp] theorem normalize_root : normalize root = root := normalize_of_isNormal isNormal_root

/-! ### Building and taking apart -/

private theorem toList_ofComponents_cons (c : List Char) (cs : List (List Char)) :
    (ofComponents (c :: cs)).toList = stem cs ++ '/' :: c := by
  rw [toList_ofComponents (List.cons_ne_nil c cs), stem_cons]

private theorem ofComponents_eq_root_iff {cs : List (List Char)} (named : ∀ c ∈ cs, IsComponent c) :
    ofComponents cs = root ↔ cs = [] := by
  refine ⟨fun same => ?_, fun empty => empty ▸ rfl⟩
  cases cs with
  | nil => rfl
  | cons c rest =>
    have text := congrArg String.toList same
    rw [toList_ofComponents_cons] at text
    have filled := (named c (List.mem_cons_self ..)).1
    have size := congrArg List.length text
    have one : root.toList.length = 1 := rfl
    simp only [List.length_append, List.length_cons, one] at size
    have := List.length_pos_iff.mpr filled
    omega

private theorem ofComponents_inj {cs ds : List (List Char)} (named : ∀ c ∈ cs, IsComponent c)
    (named' : ∀ d ∈ ds, IsComponent d) (same : ofComponents cs = ofComponents ds) : cs = ds := by
  by_cases none : cs = []
  · subst none
    exact ((ofComponents_eq_root_iff named').mp same.symm).symm
  · have none' : ds ≠ [] := fun empty =>
      none ((ofComponents_eq_root_iff named).mp (same.trans (empty ▸ rfl)))
    have pieces := congrArg components same
    rw [components_ofComponents named none, components_ofComponents named' none',
      List.cons.injEq] at pieces
    exact List.reverse_inj.mp pieces.2

private theorem stem_inj {cs ds : List (List Char)} (named : ∀ c ∈ cs, IsComponent c)
    (named' : ∀ d ∈ ds, IsComponent d) (same : stem cs = stem ds) : cs = ds := by
  cases cs with
  | nil =>
    cases ds with
    | nil => rfl
    | cons d rest => simp [stem] at same
  | cons c rest =>
    cases ds with
    | nil => simp [stem] at same
    | cons d rest' =>
      refine ofComponents_inj named named' (String.toList_inj.mp ?_)
      rw [toList_ofComponents (List.cons_ne_nil _ _), toList_ofComponents (List.cons_ne_nil _ _), same]

private theorem join_ofComponents {cs : List (List Char)} (named : ∀ c ∈ cs, IsComponent c)
    (name : String) : join (ofComponents cs) name = ofComponents (name.toList :: cs) := by
  apply String.toList_inj.mp
  rw [toList_ofComponents_cons, join]
  split
  · next top =>
    rw [(ofComponents_eq_root_iff named).mp top]
    simp [stem]
  · next deep =>
    have some : cs ≠ [] := fun none => deep (none ▸ rfl)
    rw [String.toList_append, String.toList_append, toList_ofComponents some]
    simp

/-- Induction from the root downwards. -/
theorem IsNormal.induct {motive : String → Prop} (top : motive root)
    (deeper : ∀ folder name, IsNormal folder → IsName name → motive folder →
      motive (join folder name)) {path : String} (normal : IsNormal path) : motive path := by
  obtain ⟨cs, named, rfl⟩ := normal
  induction cs with
  | nil => exact top
  | cons c rest ih =>
    have above : ∀ d ∈ rest, IsComponent d := fun d member => named d (List.mem_cons_of_mem _ member)
    have below := deeper _ (String.ofList c) ⟨rest, above, rfl⟩
      (by simpa [IsName] using named c (List.mem_cons_self ..)) (ih above)
    rwa [join_ofComponents above, String.toList_ofList] at below

theorem IsNormal.join {folder name : String} (normal : IsNormal folder) (named : IsName name) :
    IsNormal (join folder name) := by
  obtain ⟨cs, above, rfl⟩ := normal
  refine ⟨name.toList :: cs, ?_, (join_ofComponents above name).symm⟩
  intro c member
  rcases List.mem_cons.mp member with rfl | member
  · exact named
  · exact above c member

private theorem components_join {folder name : String} (deep : folder ≠ root) (named : IsName name) :
    components (Path.join folder name) = components folder ++ [name.toList] := by
  have alone : name.toList.splitOn '/' = [name.toList] := by
    have whole : (List.intercalate ['/'] [name.toList]).splitOn '/' = [name.toList] :=
      List.splitOn_intercalate '/' (by simpa using named.2.1) (by simp)
    simpa using whole
  rw [components, components, Path.join, if_neg deep, String.toList_append, String.toList_append,
    List.append_assoc]
  have split : (folder.toList ++ '/' :: name.toList).splitOn '/' =
      folder.toList.splitOn '/' ++ name.toList.splitOn '/' :=
    List.splitOnP_append_cons folder.toList name.toList rfl
  refine split.trans ?_
  exact congrArg (components folder ++ ·) alone

/-- An object of a folder that is spelled in any way is that object of its normal form. -/
theorem normalize_join (folder : String) {name : String} (named : IsName name) :
    normalize (Path.join folder name) = Path.join (normalize folder) name := by
  by_cases top : folder = root
  · subst top
    rw [normalize_root, normalize_of_isNormal (isNormal_root.join named)]
  · have clear : ∀ c ∈ (components folder).foldl follow [], IsComponent c :=
      isComponent_foldl_follow (fun c member => slash_notMem_of_mem_components member) (by simp)
    rw [normalize, normalize, components_join top named, List.foldl_append, List.foldl_cons,
      List.foldl_nil, join_ofComponents clear]
    have filled : ¬ ((decide (name.toList = []) || decide (name.toList = ['.'])) = true) := by
      rw [Bool.or_eq_true, decide_eq_true_eq, decide_eq_true_eq, not_or]
      exact ⟨named.1, named.2.2.1⟩
    rw [follow, if_neg filled, if_neg named.2.2.2]

theorem join_ne_root {folder name : String} (normal : IsNormal folder) (named : IsName name) :
    Path.join folder name ≠ root := by
  obtain ⟨cs, above, rfl⟩ := normal
  rw [join_ofComponents above, Ne, ofComponents_eq_root_iff]
  · exact List.cons_ne_nil _ _
  · intro c member
    rcases List.mem_cons.mp member with rfl | member
    · exact named
    · exact above c member

private theorem takeWhile_append_slash {before c : List Char} (clear : '/' ∉ c) :
    (before ++ '/' :: c).reverse.takeWhile (· ≠ '/') = c.reverse := by
  have all : ∀ x ∈ c.reverse, (x ≠ '/' : Bool) = true := by
    intro x member
    simp only [ne_eq, decide_not, Bool.not_eq_true', decide_eq_false_iff_not]
    exact fun slash => clear (slash ▸ List.mem_reverse.mp member)
  simp only [List.reverse_append, List.reverse_cons, List.append_assoc]
  rw [List.takeWhile_append_of_pos all]
  simp

private theorem dropWhile_append_slash {before c : List Char} (clear : '/' ∉ c) :
    (before ++ '/' :: c).reverse.dropWhile (· ≠ '/') = '/' :: before.reverse := by
  have all : ∀ x ∈ c.reverse, (x ≠ '/' : Bool) = true := by
    intro x member
    simp only [ne_eq, decide_not, Bool.not_eq_true', decide_eq_false_iff_not]
    exact fun slash => clear (slash ▸ List.mem_reverse.mp member)
  simp only [List.reverse_append, List.reverse_cons, List.append_assoc]
  rw [List.dropWhile_append_of_pos all]
  simp

/-- The last component is the name by which the folder calls the object. -/
theorem fileName_join {folder name : String} (normal : IsNormal folder) (named : IsName name) :
    fileName (Path.join folder name) = name := by
  obtain ⟨cs, above, rfl⟩ := normal
  rw [join_ofComponents above, fileName, toList_ofComponents_cons,
    takeWhile_append_slash named.2.1]
  simp

/-- An object is in the folder that its path was built from. -/
theorem parent?_join {folder name : String} (normal : IsNormal folder) (named : IsName name) :
    parent? (Path.join folder name) = some folder := by
  rw [parent?, if_neg (join_ne_root normal named)]
  obtain ⟨cs, above, rfl⟩ := normal
  rw [join_ofComponents above, splitLast?, toList_ofComponents_cons,
    dropWhile_append_slash named.2.1, takeWhile_append_slash named.2.1]
  simp only [Option.map_some, List.reverse_reverse, Option.some.injEq]
  cases cs with
  | nil => rfl
  | cons c rest =>
    rw [if_neg (by simp [stem_cons]), ← toList_ofComponents (List.cons_ne_nil c rest)]
    exact String.ofList_toList

theorem parent?_root : parent? root = none := rfl

theorem fileName_root : fileName root = "" := by decide

/-- A normal path is the root, or a name in a folder. -/
theorem IsNormal.eq_root_or_join {path : String} (normal : IsNormal path) :
    path = root ∨ ∃ folder name, IsNormal folder ∧ IsName name ∧ path = Path.join folder name := by
  refine IsNormal.induct (motive := fun path => path = root ∨ ∃ folder name,
    IsNormal folder ∧ IsName name ∧ path = Path.join folder name) (Or.inl rfl) ?_ normal
  exact fun folder name above named _ => Or.inr ⟨folder, name, above, named, rfl⟩

/-- What is known about a path that has a parent. -/
theorem IsNormal.of_parent? {path folder : String} (normal : IsNormal path)
    (parent : parent? path = some folder) :
    IsNormal folder ∧ IsName (fileName path) ∧ Path.join folder (fileName path) = path := by
  rcases normal.eq_root_or_join with rfl | ⟨above, name, normalAbove, named, rfl⟩
  · rw [parent?_root] at parent
    cases parent
  · rw [parent?_join normalAbove named, Option.some.injEq] at parent
    subst parent
    rw [fileName_join normalAbove named]
    exact ⟨normalAbove, named, rfl⟩

/-- Only the root is in no folder. -/
theorem parent?_eq_none_iff {path : String} (normal : IsNormal path) :
    parent? path = none ↔ path = root := by
  rcases normal.eq_root_or_join with rfl | ⟨folder, name, above, named, rfl⟩
  · exact iff_of_true parent?_root rfl
  · rw [parent?_join above named]
    exact iff_of_false (by simp) (join_ne_root above named)

theorem IsNormal.exists_parent? {path : String} (normal : IsNormal path) (deep : path ≠ root) :
    ∃ folder, parent? path = some folder :=
  Option.ne_none_iff_exists'.mp ((parent?_eq_none_iff normal).not.mpr deep)

/-- Paths differ if the folders differ or the names do. -/
theorem join_inj {folder other name called : String} (normal : IsNormal folder)
    (normal' : IsNormal other) (named : IsName name) (named' : IsName called) :
    Path.join folder name = Path.join other called ↔ folder = other ∧ name = called := by
  refine ⟨fun same => ⟨?_, ?_⟩, fun ⟨first, second⟩ => by rw [first, second]⟩
  · have parents := congrArg parent? same
    rw [parent?_join normal named, parent?_join normal' named'] at parents
    exact Option.some.inj parents
  · have names := congrArg fileName same
    rwa [fileName_join normal named, fileName_join normal' named'] at names

theorem length_lt_length_join (folder : String) {name : String} (named : IsName name) :
    folder.toList.length < (Path.join folder name).toList.length := by
  have filled := List.length_pos_iff.mpr named.1
  have slash : "/".toList.length = 1 := rfl
  rw [Path.join]
  split
  · next top =>
    have one : root.toList.length = 1 := rfl
    simp only [top, String.toList_append, List.length_append]
    omega
  · simp only [String.toList_append, List.length_append]
    omega

/-- The path of a folder is shorter than those of the objects in it. This is why going up ends. -/
theorem length_parent? {path folder : String} (normal : IsNormal path)
    (parent : parent? path = some folder) : folder.toList.length < path.toList.length := by
  obtain ⟨-, named, same⟩ := normal.of_parent? parent
  have shorter := length_lt_length_join folder named
  rwa [same] at shorter

/-! ### The order of the tree -/

private theorem front_ofComponents {cs : List (List Char)} (named : ∀ c ∈ cs, IsComponent c) :
    Cache.front (ofComponents cs) = stem cs ++ ['/'] := by
  rw [Cache.front]
  split
  · next top =>
    rw [(ofComponents_eq_root_iff named).mp top]
    rfl
  · next deep =>
    rw [toList_ofComponents]
    rintro rfl
    exact deep rfl

private theorem front_prefix_iff {cs ds : List (List Char)} (named : ∀ c ∈ cs, IsComponent c)
    (named' : ∀ d ∈ ds, IsComponent d) (some : cs ≠ []) :
    stem ds ++ ['/'] <+: (ofComponents cs).toList ↔ ∃ es, es ≠ [] ∧ cs = es ++ ds := by
  rw [toList_ofComponents some]
  constructor
  · rintro ⟨rest, text⟩
    have pieces := congrArg (List.splitOn '/') text
    rw [List.append_assoc, List.singleton_append, List.splitOn_append_cons_self,
      ← toList_ofComponents some] at pieces
    change _ = components (ofComponents cs) at pieces
    rw [components_ofComponents named some] at pieces
    refine ⟨(rest.splitOn '/').reverse, by simp, ?_⟩
    by_cases none : ds = []
    · subst none
      simp only [stem, List.reverse_nil, List.flatMap_nil, List.splitOn_nil, List.singleton_append,
        List.cons.injEq, true_and] at pieces
      rw [pieces, List.reverse_reverse, List.append_nil]
    · rw [← toList_ofComponents none] at pieces
      change components (ofComponents ds) ++ _ = _ at pieces
      rw [components_ofComponents named' none, List.cons_append, List.cons.injEq] at pieces
      have reversed := congrArg List.reverse pieces.2
      rwa [List.reverse_append, List.reverse_reverse, List.reverse_reverse, eq_comm] at reversed
  · rintro ⟨es, more, rfl⟩
    rw [stem_append]
    refine List.prefix_append_right_inj _ |>.mpr ?_
    obtain ⟨e, rest, reversed⟩ := List.exists_cons_of_ne_nil (show es.reverse ≠ [] by simpa using more)
    rw [stem, reversed, List.flatMap_cons]
    exact ⟨e ++ rest.flatMap ('/' :: ·), rfl⟩

private theorem isBelow_ofComponents {cs ds : List (List Char)} (named : ∀ c ∈ cs, IsComponent c)
    (named' : ∀ d ∈ ds, IsComponent d) :
    isBelow (ofComponents cs) (ofComponents ds) ↔ ∃ es, es ≠ [] ∧ cs = es ++ ds := by
  rw [isBelow]
  split
  · next top =>
    rw [(ofComponents_eq_root_iff named').mp top, decide_eq_true_iff, Ne,
      ofComponents_eq_root_iff named]
    simp
  · next deep =>
    have some : ds ≠ [] := fun none => deep (none ▸ rfl)
    rw [List.isPrefixOf_iff_prefix, toList_ofComponents some]
    by_cases none : cs = []
    · subst none
      refine iff_of_false ?_ (by simp [some])
      rintro ⟨rest, text⟩
      have size := congrArg List.length text
      obtain ⟨d, rest', rfl⟩ := List.exists_cons_of_ne_nil some
      have one : root.toList.length = 1 := rfl
      simp only [ofComponents_nil, one, stem_cons, List.length_append, List.length_cons] at size
      omega
    · exact front_prefix_iff named named' none

/-- What an object lies below is its folder and what that lies below. -/
theorem isBelow_join {path name folder : String} (normal : IsNormal path) (named : IsName name)
    (normal' : IsNormal folder) :
    isBelow (Path.join path name) folder ↔ path = folder ∨ isBelow path folder := by
  obtain ⟨cs, above, rfl⟩ := normal
  obtain ⟨ds, above', rfl⟩ := normal'
  have whole : ∀ c ∈ name.toList :: cs, IsComponent c := by
    intro c member
    rcases List.mem_cons.mp member with rfl | member
    · exact named
    · exact above c member
  rw [join_ofComponents above, isBelow_ofComponents whole above', isBelow_ofComponents above above']
  constructor
  · rintro ⟨es, more, same⟩
    obtain ⟨e, rest, rfl⟩ := List.exists_cons_of_ne_nil more
    rw [List.cons_append, List.cons.injEq] at same
    by_cases none : rest = []
    · subst none
      exact Or.inl (congrArg ofComponents same.2)
    · exact Or.inr ⟨rest, none, same.2⟩
  · rintro (same | ⟨es, more, same⟩)
    · refine ⟨[name.toList], List.cons_ne_nil _ _, ?_⟩
      have lists : cs = ds := ofComponents_inj above above' same
      rw [lists]
      rfl
    · exact ⟨name.toList :: es, List.cons_ne_nil _ _, by rw [same, List.cons_append]⟩

theorem not_isBelow_root {folder : String} (normal : IsNormal folder) : ¬ isBelow root folder := by
  obtain ⟨cs, named, rfl⟩ := normal
  rw [← ofComponents_nil, isBelow_ofComponents (fun c member => absurd member List.not_mem_nil) named]
  rintro ⟨es, more, same⟩
  exact more (List.append_eq_nil_iff.mp same.symm).1

theorem isWithin_iff {path folder : String} :
    isWithin path folder ↔ path = folder ∨ isBelow path folder := by
  simp only [isWithin, Bool.or_eq_true, beq_iff_eq]

theorem isWithin_self (path : String) : isWithin path path := isWithin_iff.mpr (Or.inl rfl)

/-- What lies below a folder lies there with its parent. -/
theorem isBelow_join_iff {path name folder : String} (normal : IsNormal path) (named : IsName name)
    (normal' : IsNormal folder) : isBelow (Path.join path name) folder ↔ isWithin path folder := by
  rw [isBelow_join normal named normal', isWithin_iff]

theorem isBelow_join_self {folder name : String} (normal : IsNormal folder) (named : IsName name) :
    isBelow (Path.join folder name) folder :=
  (isBelow_join_iff normal named normal).mpr (isWithin_self folder)

/-- An object is below a folder if and only if its own folder is that one or below it. -/
theorem isBelow_iff_of_parent? {path above folder : String} (normal : IsNormal path)
    (parent : parent? path = some above) (normal' : IsNormal folder) :
    isBelow path folder ↔ isWithin above folder := by
  obtain ⟨normalAbove, named, same⟩ := normal.of_parent? parent
  rw [← same, isBelow_join_iff normalAbove named normal']

theorem isBelow_of_parent? {path above : String} (normal : IsNormal path)
    (parent : parent? path = some above) : isBelow path above :=
  (isBelow_iff_of_parent? normal parent (normal.of_parent? parent).1).mpr (isWithin_self above)

theorem length_lt_of_isBelow {path folder : String} (normal : IsNormal path)
    (normal' : IsNormal folder) (below : isBelow path folder) :
    folder.toList.length < path.toList.length := by
  refine IsNormal.induct (motive := fun path => isBelow path folder →
    folder.toList.length < path.toList.length) ?_ ?_ normal below
  · exact fun below => absurd below (not_isBelow_root normal')
  · intro above name normalAbove named ih below
    have shorter := length_lt_length_join above named
    rcases (isBelow_join normalAbove named normal').mp below with rfl | below
    · exact shorter
    · exact Nat.lt_trans (ih below) shorter

/-- No object lies strictly below itself. -/
theorem not_isBelow_self {path : String} (normal : IsNormal path) : ¬ isBelow path path :=
  fun below => Nat.lt_irrefl _ (length_lt_of_isBelow normal normal below)

/-- Lying within is transitive on normal paths. -/
theorem isWithin_trans {path middle folder : String} (normal : IsNormal path)
    (normal' : IsNormal middle) (normal'' : IsNormal folder) (first : isWithin path middle)
    (second : isWithin middle folder) : isWithin path folder := by
  refine IsNormal.induct (motive := fun path => isWithin path middle → isWithin path folder)
    ?_ ?_ normal first
  · intro within
    rcases isWithin_iff.mp within with same | below
    · rwa [same]
    · exact absurd below (not_isBelow_root normal')
  · intro above name normalAbove named ih within
    rcases isWithin_iff.mp within with same | below
    · rwa [same]
    · have withinAbove := ih ((isBelow_join_iff normalAbove named normal').mp below)
      exact isWithin_iff.mpr (Or.inr ((isBelow_join_iff normalAbove named normal'').mpr withinAbove))

/-- Lying below is transitive on normal paths. -/
theorem isBelow_trans {path middle folder : String} (normal : IsNormal path)
    (normal' : IsNormal middle) (normal'' : IsNormal folder) (first : isBelow path middle)
    (second : isBelow middle folder) : isBelow path folder := by
  have within := isWithin_trans normal normal' normal'' (isWithin_iff.mpr (Or.inr first))
    (isWithin_iff.mpr (Or.inr second))
  rcases isWithin_iff.mp within with rfl | below
  · have longer := length_lt_of_isBelow normal normal' first
    have shorter := length_lt_of_isBelow normal' normal second
    omega
  · exact below

/-- No way leads from a folder down to it again. -/
theorem not_isWithin_of_isBelow {path folder : String} (normal : IsNormal path)
    (normal' : IsNormal folder) (below : isBelow path folder) : ¬ isWithin folder path := by
  intro within
  rcases isWithin_iff.mp within with rfl | back
  · exact not_isBelow_self normal below
  · exact not_isBelow_self normal (isBelow_trans normal normal' normal below back)

/-- Two objects that lie within each other are one. -/
theorem isWithin_antisymm {path folder : String} (normal : IsNormal path)
    (normal' : IsNormal folder) (first : isWithin path folder) (second : isWithin folder path) :
    path = folder :=
  (isWithin_iff.mp first).resolve_right fun below =>
    not_isWithin_of_isBelow normal normal' below second

/-- What lies within a child lies below the folder of the child. -/
theorem isBelow_of_isWithin_parent? {path child folder : String} (normal : IsNormal path)
    (normal' : IsNormal child) (within : isWithin path child)
    (parent : parent? child = some folder) : isBelow path folder := by
  have above := isBelow_of_parent? normal' parent
  rcases isWithin_iff.mp within with rfl | below
  · exact above
  · exact isBelow_trans normal normal' (normal'.of_parent? parent).1 below above

theorem isBelow_of_isWithin_child {path folder name : String} (normal : IsNormal path)
    (normal' : IsNormal folder) (named : IsName name)
    (within : isWithin path (Path.join folder name)) : isBelow path folder :=
  isBelow_of_isWithin_parent? normal (normal'.join named) within (parent?_join normal' named)

/-- Of two folders above one path, one lies within the other. -/
theorem isWithin_or_isWithin {path folder other : String} (normal : IsNormal path)
    (normal' : IsNormal folder) (normal'' : IsNormal other) (first : isWithin path folder)
    (second : isWithin path other) : isWithin folder other ∨ isWithin other folder := by
  refine IsNormal.induct (motive := fun path => isWithin path folder → isWithin path other →
    isWithin folder other ∨ isWithin other folder) ?_ ?_ normal first second
  · intro first second
    rcases isWithin_iff.mp first with rfl | below
    · exact Or.inl second
    · exact absurd below (not_isBelow_root normal')
  · intro above name normalAbove named ih first second
    rcases isWithin_iff.mp first with rfl | below
    · exact Or.inl second
    · rcases isWithin_iff.mp second with rfl | below'
      · exact Or.inr first
      · exact ih ((isBelow_join_iff normalAbove named normal').mp below)
          ((isBelow_join_iff normalAbove named normal'').mp below')

/-- What lies in a folder on the way to a path lies on the way through the child of the folder. -/
theorem isWithin_of_isBelow_parent? {path middle child folder : String} (normal : IsNormal path)
    (normal' : IsNormal middle) (normal'' : IsNormal child) (above : isWithin path middle)
    (within : isWithin path child) (parent : parent? child = some folder)
    (below : isBelow middle folder) : isWithin middle child := by
  have normalFolder := (normal''.of_parent? parent).1
  rcases isWithin_or_isWithin normal normal' normal'' above within with inside | outside
  · exact inside
  · rcases isWithin_iff.mp outside with rfl | deeper
    · exact isWithin_self child
    · have back := (isBelow_iff_of_parent? normal'' parent normal').mp deeper
      exact absurd back (not_isWithin_of_isBelow normal' normalFolder below)

/-- Only one path in a folder leads to a path. -/
theorem eq_of_parent?_of_isWithin {path child other folder : String} (normal : IsNormal path)
    (normal' : IsNormal child) (normal'' : IsNormal other) (first : isWithin path child)
    (second : isWithin path other) (parent : parent? child = some folder)
    (parent' : parent? other = some folder) : child = other :=
  isWithin_antisymm normal' normal''
    (isWithin_of_isBelow_parent? normal normal' normal'' first second parent'
      (isBelow_of_parent? normal' parent))
    (isWithin_of_isBelow_parent? normal normal'' normal' second first parent
      (isBelow_of_parent? normal'' parent'))

/-- No child of a folder lies below a child of it. -/
theorem not_isBelow_join_join {folder name called : String} (normal : IsNormal folder)
    (named : IsName name) (named' : IsName called) :
    ¬ isBelow (Path.join folder name) (Path.join folder called) := by
  intro below
  have around := (isBelow_join_iff normal named (normal.join named')).mp below
  exact not_isBelow_self (normal.join named') ((isBelow_iff_of_parent? (normal.join named')
    (parent?_join normal named') (normal.join named')).mpr around)

/-- Only one child of a folder leads to a path. -/
theorem eq_of_isWithin_join {path folder name called : String} (normal : IsNormal path)
    (normal' : IsNormal folder) (named : IsName name) (named' : IsName called)
    (first : isWithin path (Path.join folder name))
    (second : isWithin path (Path.join folder called)) : name = called := by
  have same := eq_of_parent?_of_isWithin normal (normal'.join named) (normal'.join named') first
    second (parent?_join normal' named) (parent?_join normal' named')
  exact ((join_inj normal' normal' named named').mp same).2

/-- Everything but the root lies below the root. -/
theorem isBelow_root_iff {path : String} : isBelow path root ↔ path ≠ root := by
  simp only [isBelow, if_true, decide_eq_true_eq]

theorem isWithin_root (path : String) : isWithin path root := by
  by_cases top : path = root
  · exact isWithin_iff.mpr (Or.inl top)
  · exact isWithin_iff.mpr (Or.inr (isBelow_root_iff.mpr top))

/-! ### Texts of names -/

private theorem toList_join {cs : List (List Char)} (named : ∀ c ∈ cs, IsComponent c)
    (name : String) : (Path.join (ofComponents cs) name).toList = stem cs ++ '/' :: name.toList := by
  rw [join_ofComponents named, toList_ofComponents_cons]

/-- Where a normal path leads through a text without a slash, the text is a name. -/
theorem isName_of_isWithin_join {path folder name : String} (normal : IsNormal path)
    (normal' : IsNormal folder) (filled : name ≠ "") (clear : '/' ∉ name.toList)
    (within : isWithin path (Path.join folder name)) : IsName name := by
  obtain ⟨cs, named, rfl⟩ := normal
  obtain ⟨ds, named', rfl⟩ := normal'
  have filled : name.toList ≠ [] := by simpa using filled
  have deep : Path.join (ofComponents ds) name ≠ root := by
    intro top
    have size := congrArg (fun path => path.toList.length) top
    have one : root.toList.length = 1 := rfl
    have some := List.length_pos_iff.mpr filled
    simp only [toList_join named', List.length_append, List.length_cons, one] at size
    omega
  have text : ∃ rest, (ofComponents cs).toList = stem ds ++ '/' :: (name.toList ++ rest) ∧
      (rest = [] ∨ ∃ more, rest = '/' :: more) := by
    rcases isWithin_iff.mp within with same | below
    · exact ⟨[], by rw [same, toList_join named', List.append_nil], Or.inl rfl⟩
    · rw [isBelow, if_neg deep, List.isPrefixOf_iff_prefix, toList_join named'] at below
      obtain ⟨more, text⟩ := below
      exact ⟨'/' :: more, by rw [← text]; simp, Or.inr ⟨more, rfl⟩⟩
  obtain ⟨rest, text, ends⟩ := text
  have piece : name.toList ∈ (name.toList ++ rest).splitOn '/' := by
    have apart : ∀ x ∈ name.toList, (x == '/') = false := fun x member =>
      beq_false_of_ne fun slash => clear (slash ▸ member)
    rcases ends with rfl | ⟨more, rfl⟩
    · rw [List.append_nil, List.splitOn, List.splitOnP_eq_singleton apart]
      exact List.mem_singleton_self _
    · rw [List.splitOn, List.splitOnP_append_cons_of_forall_mem apart _ (beq_self_eq_true '/')]
      exact List.mem_cons_self ..
  have member : name.toList ∈ components (ofComponents cs) := by
    rw [components, text, List.splitOn_append_cons_self]
    exact List.mem_append_right _ piece
  by_cases none : cs = []
  · subst none
    rw [ofComponents_nil] at member
    have pieces : components root = [[], []] := by decide
    rw [pieces] at member
    simp [filled] at member
  · rw [components_ofComponents named none] at member
    exact named _ (List.mem_reverse.mp ((List.mem_cons.mp member).resolve_left filled))

/-- What lies at a text in a folder, or below it, lies below the folder. -/
theorem isBelow_of_isWithin_join {path folder name : String} (normal : IsNormal folder)
    (deep : folder ≠ root) (within : isWithin path (Path.join folder name)) :
    isBelow path folder := by
  obtain ⟨cs, named, rfl⟩ := normal
  have some : cs ≠ [] := by
    rintro rfl
    exact deep rfl
  have text := toList_ofComponents some
  rw [isBelow, if_neg deep, List.isPrefixOf_iff_prefix, text]
  have front : stem cs ++ ['/'] <+: (Path.join (ofComponents cs) name).toList := by
    rw [toList_join named]
    exact ⟨name.toList, by simp⟩
  rcases isWithin_iff.mp within with rfl | below
  · exact front
  · have deep' : Path.join (ofComponents cs) name ≠ root := by
      intro top
      have size := congrArg (fun path => path.toList.length) top
      have one : root.toList.length = 1 := rfl
      have long : 0 < (stem cs).length := by
        obtain ⟨c, rest, rfl⟩ := List.exists_cons_of_ne_nil some
        rw [stem_cons, List.length_append, List.length_cons]
        omega
      simp only [toList_join named, List.length_append, List.length_cons, one] at size
      omega
    rw [isBelow, if_neg deep', List.isPrefixOf_iff_prefix] at below
    exact front.trans ((List.prefix_append ..).trans below)

/-- Of the texts in the root, only the empty one leads to the root itself. -/
theorem isWithin_root_join_iff {name : String} :
    isWithin root (Path.join root name) ↔ name = "" := by
  have one : root.toList.length = 1 := rfl
  have text : (Path.join root name).toList = '/' :: name.toList := by simp [Path.join]
  constructor
  · intro within
    by_contra filled
    have long : 0 < name.toList.length := List.length_pos_iff.mpr (by simpa using filled)
    have deep : Path.join root name ≠ root := by
      intro top
      have size := congrArg (fun path => path.toList.length) top
      simp only [text, List.length_cons, one] at size
      omega
    have below := (isWithin_iff.mp within).resolve_left deep.symm
    rw [isBelow, if_neg deep, List.isPrefixOf_iff_prefix, text] at below
    have size := below.length_le
    simp only [List.length_append, List.length_cons, one] at size
    omega
  · rintro rfl
    exact isWithin_iff.mpr (Or.inl (by decide))

/-! ### Scanning -/

private theorem nameIn?_of_front {folder path : String} {rest : List Char}
    (text : path.toList = Cache.front folder ++ rest) (filled : rest ≠ []) (clear : '/' ∉ rest) :
    Cache.nameIn? folder path = some (String.ofList rest) := by
  simp [Cache.nameIn?, text, filled, clear]

private theorem prefix_of_nameIn? {folder path name : String}
    (found : Cache.nameIn? folder path = some name) :
    path.toList = Cache.front folder ++ name.toList ∧ '/' ∉ name.toList := by
  simp only [Cache.nameIn?, Option.ite_none_right_eq_some, Bool.and_eq_true,
    List.isPrefixOf_iff_prefix, Option.some.injEq] at found
  obtain ⟨⟨⟨⟨rest, text⟩, -⟩, clear⟩, rfl⟩ := found
  rw [← text, List.drop_left] at clear ⊢
  rw [String.toList_ofList]
  exact ⟨rfl, by simpa using clear⟩

theorem of_nameIn?_eq_some {folder path name : String}
    (found : Cache.nameIn? folder path = some name) : name ≠ "" ∧ '/' ∉ name.toList := by
  refine ⟨?_, (prefix_of_nameIn? found).2⟩
  rintro rfl
  simp only [Cache.nameIn?, Option.ite_none_right_eq_some, Bool.and_eq_true, Bool.not_eq_true',
    List.isEmpty_eq_false_iff, Option.some.injEq, String.ofList_eq_empty_iff] at found
  exact found.1.1.2 found.2

/-- The paths of all objects in a folder begin with the same text, behind which comes the name. -/
theorem toList_join_eq_front_append (folder name : String) :
    (Path.join folder name).toList = Cache.front folder ++ name.toList := by
  rw [Path.join, Cache.front]
  split
  · rw [String.toList_append]
    rfl
  · rw [String.toList_append, String.toList_append]
    rfl

/-- A path that begins like those in a folder is the folder joined with the rest, be that a name or
not. -/
theorem join_ofList_eq {folder path : String} {rest : List Char}
    (text : Cache.front folder ++ rest = path.toList) :
    Path.join folder (String.ofList rest) = path := by
  rw [← String.toList_inj, toList_join_eq_front_append, String.toList_ofList, text]

/-- A folder is the parent of what it calls by a text without a slash, and of nothing else. -/
theorem parent?_join_eq_some_iff {folder name : String} (normal : IsNormal (Path.join folder name))
    (normal' : IsNormal folder) :
    parent? (Path.join folder name) = some folder ↔ name ≠ "" ∧ '/' ∉ name.toList := by
  constructor
  · intro parent
    obtain ⟨-, named, same⟩ := normal.of_parent? parent
    have called : fileName (Path.join folder name) = name := by
      have texts := congrArg String.toList same
      rw [toList_join_eq_front_append, toList_join_eq_front_append folder name,
        List.append_cancel_left_eq] at texts
      exact String.toList_inj.mp texts
    rw [called] at named
    exact ⟨fun empty => named.1 (by rw [empty]; rfl), named.2.1⟩
  · rintro ⟨filled, clear⟩
    exact parent?_join normal'
      (isName_of_isWithin_join normal normal' filled clear (isWithin_self _))

private theorem append_lt_append_iff (front : List Char) {a b : List Char} :
    front ++ a < front ++ b ↔ a < b := by
  induction front with
  | nil => rfl
  | cons c rest ih => rw [List.cons_append, List.cons_append, List.cons_lt_cons_self, ih]

/-- The objects in a folder are in the order of their names. -/
theorem join_lt_join_iff {folder a b : String} :
    Path.join folder a < Path.join folder b ↔ a < b := by
  rw [String.lt_iff, String.lt_iff, toList_join_eq_front_append, toList_join_eq_front_append,
    append_lt_append_iff]

/-- Beside the root, which begins like everything in it, what begins like the objects in a folder
lies below the folder. -/
theorem isBelow_iff_begins {path folder : String} (normal : IsNormal path)
    (normal' : IsNormal folder) (deep : path ≠ root) :
    isBelow path folder ↔ Cache.front folder <+: path.toList := by
  obtain ⟨cs, named, rfl⟩ := normal
  obtain ⟨ds, named', rfl⟩ := normal'
  have some : cs ≠ [] := by
    rintro rfl
    exact deep ofComponents_nil
  rw [front_ofComponents named', front_prefix_iff named named' some,
    isBelow_ofComponents named named']

/-- Of the normal paths, a folder knows by name exactly those whose parent it is. -/
theorem nameIn?_join {path name folder : String} (normal : IsNormal path) (named : IsName name)
    (normal' : IsNormal folder) :
    Cache.nameIn? folder (Path.join path name) = if path = folder then some name else none := by
  obtain ⟨cs, above, rfl⟩ := normal
  obtain ⟨ds, above', rfl⟩ := normal'
  have text : (ofComponents (name.toList :: cs)).toList = stem cs ++ ['/'] ++ name.toList := by
    rw [toList_ofComponents_cons, List.append_assoc, List.singleton_append]
  rw [join_ofComponents above]
  split
  · next same =>
    rw [← front_ofComponents above, same] at text
    rw [nameIn?_of_front text named.1 named.2.1, String.ofList_toList]
  · next differ =>
    cases found : Cache.nameIn? (ofComponents ds) (ofComponents (name.toList :: cs)) with
    | none => rfl
    | some other =>
      obtain ⟨text', clear⟩ := prefix_of_nameIn? found
      rw [text, front_ofComponents above', List.append_assoc, List.append_assoc,
        List.singleton_append, List.singleton_append] at text'
      have parts := congrArg (fun l => l.reverse.dropWhile (· ≠ '/')) text'
      rw [dropWhile_append_slash named.2.1, dropWhile_append_slash clear, List.cons.injEq,
        List.reverse_inj] at parts
      exact absurd (stem_inj above above' parts.2) fun lists => differ (lists ▸ rfl)

/-! ### Moving a subtree -/

section Moving

variable {source target path : String}

theorem movedPath_self (source target : String) : Store.movedPath source target source = target := by
  rw [Store.movedPath, List.drop_length]
  exact String.append_empty

private theorem toList_join_of_ne_root {folder name : String} (deep : folder ≠ root) :
    (Path.join folder name).toList = folder.toList ++ '/' :: name.toList := by
  rw [Path.join, if_neg deep, String.toList_append, String.toList_append]
  simp

private theorem source_prefix (deep : source ≠ root) (within : isWithin path source) :
    source.toList <+: path.toList := by
  rcases isWithin_iff.mp within with rfl | below
  · exact List.prefix_refl _
  · rw [isBelow, if_neg deep, List.isPrefixOf_iff_prefix] at below
    exact (List.prefix_append ..).trans below

theorem ne_root_of_isWithin (normal : IsNormal source) (deep : source ≠ root)
    (within : isWithin path source) : path ≠ root := by
  rintro rfl
  rcases isWithin_iff.mp within with same | below
  · exact deep same.symm
  · exact not_isBelow_root normal below

private theorem toList_movedPath {rest : List Char} (text : source.toList ++ rest = path.toList) :
    (Store.movedPath source target path).toList = target.toList ++ rest := by
  rw [Store.movedPath, ← text, List.drop_left, String.toList_append, String.toList_ofList]

private theorem movedPath_ne_root (normal : IsNormal target) (deep : source ≠ root)
    (deep' : target ≠ root) (within : isWithin path source) :
    Store.movedPath source target path ≠ root := by
  obtain ⟨rest, text⟩ := source_prefix deep within
  intro top
  have texts := congrArg String.toList top
  rw [toList_movedPath text] at texts
  obtain ⟨folder, name, normalFolder, named, rfl⟩ := normal.eq_root_or_join.resolve_left deep'
  have size := congrArg List.length texts
  have one : root.toList.length = 1 := rfl
  have longer := length_lt_length_join folder named
  rw [List.length_append, one] at size
  have empty : folder.toList.length = 0 := by omega
  have filled : 0 < folder.toList.length := by
    obtain ⟨cs, -, rfl⟩ := normalFolder
    rw [ofComponents, String.toList_ofList, List.length_cons]
    exact Nat.succ_pos _
  omega

/-- Moving a folder moves the objects in it under the names that they have. -/
theorem movedPath_join {name : String} (normal : IsNormal source) (normal' : IsNormal target)
    (deep : source ≠ root) (deep' : target ≠ root) (within : isWithin path source) :
    Store.movedPath source target (Path.join path name) =
      Path.join (Store.movedPath source target path) name := by
  obtain ⟨rest, text⟩ := source_prefix deep within
  have whole : source.toList ++ (rest ++ '/' :: name.toList) = (Path.join path name).toList := by
    rw [toList_join_of_ne_root (ne_root_of_isWithin normal deep within), ← text, List.append_assoc]
  apply String.toList_inj.mp
  rw [toList_movedPath whole, toList_join_of_ne_root (movedPath_ne_root normal' deep deep' within),
    toList_movedPath text, List.append_assoc]

/-- Moving back undoes moving. -/
theorem movedPath_movedPath (deep : source ≠ root) (within : isWithin path source) :
    Store.movedPath target source (Store.movedPath source target path) = path := by
  obtain ⟨rest, text⟩ := source_prefix deep within
  apply String.toList_inj.mp
  rw [toList_movedPath (toList_movedPath text).symm, text]

private theorem isNormal_isWithin_movedPath (normal : IsNormal path) (normal' : IsNormal source)
    (normal'' : IsNormal target) (deep : source ≠ root) (deep' : target ≠ root)
    (within : isWithin path source) :
    IsNormal (Store.movedPath source target path) ∧
      isWithin (Store.movedPath source target path) target := by
  refine IsNormal.induct (motive := fun path => isWithin path source →
    IsNormal (Store.movedPath source target path) ∧
      isWithin (Store.movedPath source target path) target) ?_ ?_ normal within
  · exact fun within => absurd rfl (ne_root_of_isWithin normal' deep within)
  · intro folder name normalFolder named ih within
    rcases isWithin_iff.mp within with rfl | below
    · rw [movedPath_self]
      exact ⟨normal'', isWithin_self target⟩
    · have above := (isBelow_join_iff normalFolder named normal').mp below
      obtain ⟨moved, inside⟩ := ih above
      rw [movedPath_join normal' normal'' deep deep' above]
      exact ⟨moved.join named, isWithin_iff.mpr (Or.inr
        ((isBelow_join_iff moved named normal'').mpr inside))⟩

/-- A path that is moved along with its folder stays in normal form. -/
theorem isNormal_movedPath (normal : IsNormal path) (normal' : IsNormal source)
    (normal'' : IsNormal target) (deep : source ≠ root) (deep' : target ≠ root)
    (within : isWithin path source) : IsNormal (Store.movedPath source target path) :=
  (isNormal_isWithin_movedPath normal normal' normal'' deep deep' within).1

/-- What lay within the old place lies within the new one. -/
theorem isWithin_movedPath (normal : IsNormal path) (normal' : IsNormal source)
    (normal'' : IsNormal target) (deep : source ≠ root) (deep' : target ≠ root)
    (within : isWithin path source) : isWithin (Store.movedPath source target path) target :=
  (isNormal_isWithin_movedPath normal normal' normal'' deep deep' within).2

end Moving

end StoreShell.Path
