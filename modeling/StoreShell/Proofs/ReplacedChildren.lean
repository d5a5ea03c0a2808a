import Mathlib.Data.List.Induction
import StoreShell.Proofs.ClaimLifetimes

/-! # What a listing replaces

A listing tells all children of a folder, so whatever a cache knew of other children of the folder,
and of anything below them, is over. What is dropped is found by name: the names that the folder had
in its last listing, and those of its children that have nodes. An object may have been noted far
below the folder with no node on the way; then no name leads to it, it is *stray*, and it outlives
every listing of the folder. Nothing is stray as long as a cache is told of objects after their
folders.
-/

namespace StoreShell.Cache

open StoreShell.Path

/-- Whether an operation makes a listing the children of a folder in normal form: the listing is
told, or it was claimed and is not stale on arrival. -/
def Operation.Installs (c : Cache) (folder : String) (entries : List Entry) : Operation → Prop
  | addChildren other listed => normalize other = folder ∧ listed = entries
  | finishFetch other listing =>
    normalize other = folder ∧ listing = some entries ∧ (c.finishFetch other listing).1 = true
  | add .. | invalidate _ | remove _ | clear | beginFetch _ => False

/-- Whether one of the children that a listing of a folder names leads to a path. -/
def LeadsTo (folder : String) (entries : List Entry) (path : String) : Prop :=
  ∃ e ∈ entries, isWithin path (join folder e.name)

/-- Whether a node lies below a folder, and none of the children that the folder is known to have
leads to it. -/
structure Stray (c : Cache) (folder path : String) : Prop where
  node : path ∈ c.nodes
  below : isBelow path folder
  unknown : ∀ name ∈ c.knownNames folder, ¬ isWithin path (join folder name)

variable {c : Cache} {o : Operation} {operations : List Operation} {folder path : String}
  {entries : List Entry}

/-! ### Installing -/

/-- Listings are installed under normal paths. -/
theorem Operation.Installs.isNormal (installs : o.Installs c folder entries) : IsNormal folder := by
  cases o with
  | addChildren other listed => exact installs.1 ▸ isNormal_normalize other
  | finishFetch other listing => exact installs.1 ▸ isNormal_normalize other
  | _ => exact installs.elim

/-- However a listing comes, the same becomes of the nodes. -/
theorem Operation.Installs.nodes (installs : o.Installs c folder entries) :
    (o.apply c).nodes = (c.install folder entries).nodes := by
  cases o with
  | addChildren other listed =>
    obtain ⟨rfl, rfl⟩ := installs
    rfl
  | finishFetch other listing =>
    obtain ⟨rfl, rfl, got⟩ := installs
    rcases finishFetch_cases c other entries with ⟨-, refused⟩ | ⟨_, same, -, installed⟩
    · rw [refused] at got
      cases got
    · cases same
      rw [apply, installed]
      rfl
  | _ => exact installs.elim

/-- Nothing is gone outside a folder other than the root. -/
theorem isGone_of_not_isBelow (normal : IsNormal folder) (deep : folder ≠ root)
    (outside : ¬ isBelow path folder) : c.isGone folder entries path = false := by
  refine Bool.eq_false_iff.mpr fun gone => ?_
  obtain ⟨name, -, -, within⟩ := (isGone_iff c).mp gone
  exact outside (isBelow_of_isWithin_join normal deep within)

/-- The root is gone if it was told to have a child without a name. -/
theorem isGone_root_iff (named : ∀ e ∈ entries, IsName e.name) :
    c.isGone root entries root ↔ "" ∈ c.knownNames root := by
  rw [isGone_iff]
  constructor
  · rintro ⟨name, known, -, within⟩
    exact isWithin_root_join_iff.mp within ▸ known
  · intro known
    refine ⟨"", known, fun e member same => ?_, isWithin_root_join_iff.mpr rfl⟩
    have filled := (named e member).1
    rw [same] at filled
    exact filled rfl

/-- Below a folder that was just listed there are the children of the listing with what was known
below them, and what was stray. -/
theorem mem_nodes_install_iff (below : isBelow path folder) (normal : IsNormal folder) :
    path ∈ (c.install folder entries).nodes ↔
      (∃ e ∈ entries, join folder e.name = path) ∨
        path ∈ c.nodes ∧ ∀ name ∈ c.knownNames folder, isWithin path (join folder name) →
          ∃ e ∈ entries, e.name = name := by
  have differ : path ≠ folder := by
    rintro rfl
    exact not_isBelow_self normal below
  rw [mem_nodes_install c differ, ← Bool.not_eq_true, isGone_iff]
  refine or_congr_right (and_congr_right fun _ => ⟨fun stays name known within => ?_, ?_⟩)
  · by_contra unlisted
    exact stays ⟨name, known, fun e member same => unlisted ⟨e, member, same⟩, within⟩
  · rintro listed ⟨name, known, unlisted, within⟩
    obtain ⟨e, member, same⟩ := listed name known within
    exact unlisted e member same

/-- All that is cached below a folder is in the children that a listing of it names, once it is
installed, exactly if nothing else is stray there before. -/
theorem Operation.Installs.leadsTo_iff (installs : o.Installs c folder entries) :
    (∀ path ∈ (o.apply c).nodes, isBelow path folder → LeadsTo folder entries path) ↔
      ∀ path, c.Stray folder path → LeadsTo folder entries path := by
  have normal := installs.isNormal
  rw [installs.nodes]
  constructor
  · intro led path stray
    refine led path ((mem_nodes_install_iff stray.below normal).mpr (Or.inr ⟨stray.node, ?_⟩))
      stray.below
    exact fun name known within => absurd within (stray.unknown name known)
  · intro led path node below
    rcases (mem_nodes_install_iff below normal).mp node with ⟨e, member, rfl⟩ | ⟨node, kept⟩
    · exact ⟨e, member, isWithin_self _⟩
    · by_cases known : ∃ name ∈ c.knownNames folder, isWithin path (join folder name)
      · obtain ⟨name, known, within⟩ := known
        obtain ⟨e, member, rfl⟩ := kept name known within
        exact ⟨e, member, within⟩
      · exact led path ⟨node, below, fun name member within => known ⟨name, member, within⟩⟩

/-- Whatever cache a listing of a folder is installed in, and however it comes: all that is cached
below the folder is in the children that the listing names exactly if nothing else was stray there.
Outside the folder only the folder itself changes, whose children are known now, and the root loses
its entry if an earlier listing gave it a child without a name. -/
theorem install_replaces_iff (installs : o.Installs c folder entries)
    (named : ∀ e ∈ entries, IsName e.name) :
    ((∀ path ∈ (o.apply c).nodes, isBelow path folder → LeadsTo folder entries path) ↔
      ∀ path, c.Stray folder path → LeadsTo folder entries path) ∧
    ∀ path, ¬ isBelow (normalize path) folder →
      (o.apply c).isLoaded path = (c.isLoaded path || normalize path == folder) ∧
      (o.apply c).get? path =
        if folder = root ∧ "" ∈ c.knownNames root then none else c.get? path := by
  refine ⟨installs.leadsTo_iff, fun path outside => ?_⟩
  have normal := installs.isNormal
  have same := SameAnswers.of_nodes installs.nodes
  have aside : ∀ e ∈ entries, join folder e.name ≠ normalize path := by
    intro e member at_
    exact outside (at_ ▸ isBelow_join_self normal (named e member))
  rw [same.isLoaded, same.get?, isLoaded, isLoaded, Cache.get?, Cache.get?, ← entryAt?, ← entryAt?,
    entryAt?_install_of_notMem c aside]
  by_cases top : folder = root
  · subst top
    have here : normalize path = root := not_not.mp (isBelow_root_iff.not.mp outside)
    rw [here, childNames?_install_self]
    refine ⟨by simp, if_congr ?_ rfl rfl⟩
    rw [isGone_root_iff named]
    simp
  · have stays : c.isGone folder entries (normalize path) = false :=
      isGone_of_not_isBelow normal top outside
    rw [stays, if_neg Bool.false_ne_true, if_neg fun both => top both.1]
    refine ⟨?_, rfl⟩
    by_cases here : normalize path = folder
    · rw [here, childNames?_install_self]
      simp
    · rw [childNames?_install_of_notMem c here aside, stays, if_neg Bool.false_ne_true]
      simp [here]

/-- What is told folder by folder, with a listing below the one that is replaced. -/
def toldInOrder : Cache := Cache.empty.after
  [.addChildren "/" [⟨"d", .folder, 1, 0, none⟩, ⟨"e", .file, 2, 0, none⟩],
    .addChildren "d" [⟨"x", .file, 3, 0, none⟩, ⟨"y", .folder, 4, 0, none⟩],
    .add ⟨"z", .file, 5, 0, none⟩ "/d/y/z"]

/-- Nothing is stray in it, and a listing that has only `y` drops `/d/x` and keeps `/d/y/z`. -/
theorem install_replaces_toldInOrder :
    let o : Operation := .addChildren "/d/" [⟨"y", .folder, 4, 0, none⟩]
    o.Installs toldInOrder "/d" [⟨"y", .folder, 4, 0, none⟩] ∧ IsName "y" ∧
    (∀ path, ¬ toldInOrder.Stray "/d" path) ∧
    (∀ path ∈ (o.apply toldInOrder).nodes, isBelow path "/d" → isWithin path "/d/y") ∧
    (o.apply toldInOrder).get? "e" = some ⟨"e", .file, 2, 0, none⟩ ∧
    (o.apply toldInOrder).paths = ["/d", "/d/y", "/d/y/z", "/e"] := by
  intro o
  have installs : o.Installs toldInOrder "/d" [⟨"y", .folder, 4, 0, none⟩] :=
    ⟨by decide +kernel, rfl⟩
  have isName : IsName "y" := by
    rw [IsName, IsComponent]
    decide +kernel
  have none : ∀ path, ¬ toldInOrder.Stray "/d" path := by
    have all : ∀ path ∈ toldInOrder.nodes.keys, isBelow path "/d" →
        ∃ name ∈ toldInOrder.knownNames "/d", isWithin path (join "/d" name) := by decide +kernel
    rintro path ⟨node, below, unknown⟩
    obtain ⟨name, known, within⟩ := all path (Std.TreeMap.mem_keys.mpr node) below
    exact unknown name known within
  obtain ⟨led, frame⟩ := install_replaces_iff installs (List.forall_mem_singleton.mpr isName)
  refine ⟨installs, isName, none, fun path node below => ?_, ?_, by decide +kernel⟩
  · obtain ⟨e, member, within⟩ :=
      led.mpr (fun path stray => absurd stray (none path)) path node below
    rw [List.mem_singleton.mp member] at within
    exact within
  · rw [(frame "e" (by decide +kernel)).2]
    decide +kernel

/-- A file that was noted two levels below a folder with no node between them is still cached when
the folder is listed and has no children at all. -/
theorem exists_outlasting :
    let c := Cache.empty.add ⟨"y", .file, 1, 0, none⟩ "/d/x/y"
    let o : Operation := .addChildren "/d" []
    o.Installs c "/d" [] ∧ isBelow "/d/x/y" "/d" ∧ ¬ LeadsTo "/d" [] "/d/x/y" ∧
      (o.apply c).get? "/d/x/y" = some ⟨"y", .file, 1, 0, none⟩ ∧
      (o.apply c).children? "/d" = some [] := by
  refine ⟨⟨by decide +kernel, rfl⟩, by decide, ?_, by decide +kernel, by decide +kernel⟩
  rintro ⟨e, member, -⟩
  exact absurd member List.not_mem_nil

/-! ### Folders first -/

/-- Whether an operation tells of something in a folder that has a node. -/
def Operation.Follows (c : Cache) : Operation → Prop
  | add _ path => ∀ folder, parent? (normalize path) = some folder → folder ∈ c.nodes
  | addChildren folder _ | finishFetch folder _ => normalize folder ∈ c.nodes
  | invalidate _ | remove _ | clear | beginFetch _ => True

/-- Whether the folders of all nodes have nodes. -/
structure Grounded (c : Cache) : Prop where
  inStep : c.InStep
  parent : ∀ {path folder}, path ∈ c.nodes → parent? path = some folder → folder ∈ c.nodes

theorem Grounded.of_nodes {c' : Cache} (grounded : c.Grounded) (same : c'.nodes = c.nodes) :
    c'.Grounded :=
  ⟨grounded.inStep.of_nodes same, same ▸ grounded.parent⟩

theorem grounded_of_rootOnly (bare : c.nodes = rootOnly) : c.Grounded := by
  refine ⟨inStep_of_rootOnly bare, fun {path folder} node parent => ?_⟩
  rw [bare, rootOnly, Std.TreeMap.mem_insert, Std.LawfulEqCmp.compare_eq_iff_eq] at node
  have top := node.resolve_right Std.TreeMap.not_mem_emptyc
  rw [← top, parent?_root] at parent
  cases parent

/-- Where every folder has a node, the children that a folder is known to have lead to everything
below it. -/
theorem Grounded.not_stray (grounded : c.Grounded) (normal : IsNormal folder) :
    ¬ c.Stray folder path := by
  rintro ⟨node, below, unknown⟩
  have names : ∀ names, c.childNames? folder = some names → ∀ name ∈ names, IsName name :=
    fun names listed name member => ((grounded.inStep.names listed).mp member).1
  -- from a child of the folder, which has a node, the path is reached downwards
  have known : path ∈ c.nodes → isBelow path folder →
      ∃ name ∈ c.knownNames folder, isWithin path (join folder name) := by
    refine IsNormal.induct (motive := fun path => path ∈ c.nodes → isBelow path folder →
      ∃ name ∈ c.knownNames folder, isWithin path (join folder name)) ?_ ?_
      (grounded.inStep.tidy path node)
    · exact fun _ below => absurd below (not_isBelow_root normal)
    · intro above name normalAbove named ih node below
      have around := (isBelow_join_iff normalAbove named normal).mp below
      rcases isWithin_iff.mp around with rfl | deeper
      · exact ⟨name, mem_knownNames_of_mem_nodes normal named node, isWithin_self _⟩
      · obtain ⟨called, member, within⟩ :=
          ih (grounded.parent node (parent?_join normalAbove named)) deeper
        have isName := isName_of_mem_knownNames normal names normalAbove member within
        exact ⟨called, member, isWithin_iff.mpr (Or.inr
          ((isBelow_join_iff normalAbove named (normal.join isName)).mpr within))⟩
  obtain ⟨name, member, within⟩ := known node below
  exact unknown name member within

/-- An object that is added to a folder with a node leaves no node hanging. -/
theorem Grounded.add (grounded : c.Grounded) {e : Entry} {path : String}
    (named : Operation.WellNamed (.add e path)) (follows : Operation.Follows c (.add e path)) :
    (c.add e path).Grounded := by
  refine ⟨grounded.inStep.add named, fun {other above} node parent => ?_⟩
  rw [mem_nodes_add] at node ⊢
  rcases node with rfl | node
  · exact Or.inr (follows above parent)
  · exact Or.inr (grounded.parent node parent)

theorem Grounded.invalidate (grounded : c.Grounded) (folder : String) :
    (c.invalidate folder).Grounded := by
  refine ⟨grounded.inStep.invalidate folder, fun {other above} node parent => ?_⟩
  rw [mem_nodes_invalidate] at node ⊢
  refine ⟨grounded.parent node.1 parent, fun below => node.2 ?_⟩
  exact (isBelow_iff_of_parent? (grounded.inStep.tidy other node.1) parent
    (isNormal_normalize folder)).mpr (isWithin_iff.mpr (Or.inr below))

theorem Grounded.remove (grounded : c.Grounded) (path : String) : (c.remove path).Grounded := by
  cases up : parent? (normalize path) with
  | none =>
    rw [Cache.remove, up]
    exact grounded_of_rootOnly rfl
  | some folder =>
    refine ⟨grounded.inStep.remove path, fun {other above} node parent => ?_⟩
    rw [mem_nodes_remove _ up] at node ⊢
    refine ⟨grounded.parent node.1 parent, fun within => node.2 ?_⟩
    have normal := grounded.inStep.tidy other node.1
    exact isWithin_iff.mpr
      (Or.inr ((isBelow_iff_of_parent? normal parent (isNormal_normalize path)).mpr within))

/-- A listing of a folder with a node leaves no node hanging. -/
theorem Grounded.install (grounded : c.Grounded) (normal : IsNormal folder)
    (named : ∀ e ∈ entries, IsName e.name) (node : folder ∈ c.nodes) :
    (c.install folder entries).Grounded := by
  have names : ∀ names, c.childNames? folder = some names → ∀ name ∈ names, IsName name :=
    fun names listed name member => ((grounded.inStep.names listed).mp member).1
  refine ⟨grounded.inStep.install normal named, fun {other above} node' parent => ?_⟩
  by_cases here : above = folder
  · rw [here]
    exact Std.TreeMap.mem_insert_self
  rw [mem_nodes_install c here]
  by_cases same : other = folder
  · subst same
    obtain ⟨normalAbove, called, joined⟩ := normal.of_parent? parent
    refine Or.inr ⟨grounded.parent node parent, isGone_of_not_isBelow normal ?_ fun below => ?_⟩
    · rintro rfl
      cases parent
    · exact not_isBelow_self normal
        ((isBelow_iff_of_parent? normal parent normal).mpr (isWithin_iff.mpr (Or.inr below)))
  · rcases (mem_nodes_install c same).mp node' with ⟨e, member, rfl⟩ | ⟨node', kept⟩
    · rw [parent?_join normal (named e member), Option.some.injEq] at parent
      exact absurd parent.symm here
    · obtain ⟨normalAbove, called, joined⟩ := (grounded.inStep.tidy other node').of_parent? parent
      refine Or.inr ⟨grounded.parent node' parent, ?_⟩
      rwa [← isGone_join normal names normalAbove called here, joined]

/-- A cache stays grounded when it is told only of things in folders that have nodes. -/
theorem Grounded.apply (grounded : c.Grounded) (named : o.WellNamed) (follows : o.Follows c) :
    (o.apply c).Grounded := by
  cases o with
  | add e path => exact grounded.add named follows
  | addChildren folder entries =>
    exact (grounded.install (isNormal_normalize folder) named follows).of_nodes rfl
  | invalidate folder => exact grounded.invalidate folder
  | remove path => exact grounded.remove path
  | clear => exact grounded_of_rootOnly rfl
  | beginFetch folder =>
    cases claimed : (c.beginFetch folder).1 with
    | true => exact grounded.of_nodes (beginFetch_of_claimed c folder claimed).1
    | false =>
      rw [Operation.apply, beginFetch_of_refused c folder claimed]
      exact grounded
  | finishFetch folder listing =>
    rcases finishFetch_cases c folder listing with ⟨-, refused⟩ | ⟨entries, rfl, -, installed⟩
    · rw [Operation.apply, refused]
      exact grounded.of_nodes rfl
    · rw [Operation.apply, installed]
      exact (grounded.install (isNormal_normalize folder) named follows).of_nodes rfl

/-- A cache that is told of objects after their folders stays grounded. -/
theorem Grounded.after (grounded : c.Grounded) (named : ∀ o ∈ operations, o.WellNamed)
    (follow : ∀ earlier o, earlier ++ [o] <+: operations → o.Follows (c.after earlier)) :
    (c.after operations).Grounded := by
  induction operations using List.reverseRecOn with
  | nil => exact grounded
  | append_singleton earlier o ih =>
    have before := ih (fun o member => named o (List.mem_append_left _ member))
      fun first o initial => follow first o (initial.trans (List.prefix_append ..))
    rw [Cache.after, List.foldl_append]
    exact before.apply (named o (List.mem_append_right _ (List.mem_singleton_self o)))
      (follow earlier o (List.prefix_refl _))

/-- After whatever was told folders first, a listing that is installed replaces all that it does not
name. -/
theorem leadsTo_of_folders_first (named : ∀ o ∈ operations, o.WellNamed)
    (follow : ∀ earlier o, earlier ++ [o] <+: operations → o.Follows (empty.after earlier))
    (installs : o.Installs (empty.after operations) folder entries) :
    ∀ path ∈ (o.apply (empty.after operations)).nodes, isBelow path folder →
      LeadsTo folder entries path := by
  have grounded := (grounded_of_rootOnly (c := empty) rfl).after named follow
  exact installs.leadsTo_iff.mpr fun path stray =>
    absurd stray (grounded.not_stray installs.isNormal)

end StoreShell.Cache
