import StoreShell.Proofs.CacheConsistency

/-! # From a claim to the end of its listing

Between the moment a listing is claimed and the moment it arrives anything may be done to a cache.
The claim stays, and the only thing that becomes of it is that it turns stale: as soon as an
operation *overtakes* the listing. `Operation.overtakes` is the complete list of these operations,
so that whether a listing is installed can be read off what was done while it was on its way.
-/

namespace StoreShell.Cache

open StoreShell.Path

namespace Operation

/-- The path that an operation is about, as it is spelled. Clearing is about the root. -/
def subject : Operation → String
  | add _ path | remove path => path
  | addChildren folder _ | invalidate folder | beginFetch folder | finishFetch folder _ => folder
  | clear => root

/-- Whether an operation may have changed what a listing of a folder in normal form tells: an object
directly in the folder is noted or forgotten, the folder gets its children from elsewhere, or the
folder or one above it is forgotten. -/
def overtakes (folder : String) : Operation → Bool
  | add _ path => parent? (normalize path) = some folder
  | addChildren other _ => normalize other = folder
  | invalidate other => isWithin folder (normalize other)
  | remove path => parent? (normalize path) = some folder || isWithin folder (normalize path)
  | clear => true
  | beginFetch _ | finishFetch .. => false

/-- Whether an operation gives the claim on a folder in normal form back. -/
def givesBack (folder : String) : Operation → Bool
  | finishFetch other _ => normalize other = folder
  | add .. | addChildren .. | invalidate _ | remove _ | clear | beginFetch _ => false

/-- Whether an operation is about a path that is neither a folder in normal form nor below it nor
above it. -/
def Aside (folder : String) (o : Operation) : Prop :=
  ¬ isWithin (normalize o.subject) folder ∧ ¬ isWithin folder (normalize o.subject)

instance (folder : String) (o : Operation) : Decidable (o.Aside folder) := instDecidableAnd

/-- What is done elsewhere overtakes nothing. -/
theorem Aside.overtakes_eq_false {folder : String} {o : Operation} (normal : IsNormal folder)
    (aside : o.Aside folder) : o.overtakes folder = false := by
  obtain ⟨notWithin, notAbove⟩ := aside
  have apart : parent? (normalize o.subject) ≠ some folder := fun parent =>
    notWithin (isWithin_iff.mpr (Or.inr ((isBelow_iff_of_parent? (isNormal_normalize _) parent
      normal).mpr (isWithin_self folder))))
  cases o with
  | add e path => exact decide_eq_false apart
  | addChildren other entries =>
    refine decide_eq_false fun same => notWithin ?_
    exact isWithin_iff.mpr (Or.inl same)
  | invalidate other => exact Bool.eq_false_iff.mpr notAbove
  | remove path =>
    exact Bool.or_eq_false_iff.mpr ⟨decide_eq_false apart, Bool.eq_false_iff.mpr notAbove⟩
  | clear => exact absurd (normalize_root ▸ isWithin_root folder) notAbove
  | beginFetch other => rfl
  | finishFetch other entries => rfl

end Operation

variable {c c' : Cache} {folder : String} {o : Operation} {operations : List Operation}
  {entries : List Entry}

/-! ### Claims while operations go on -/

/-- An operation leaves a claim where it is, and makes it stale if it overtakes the listing. -/
theorem flight?_apply (claimed : (c.flight? folder).isSome) (kept : o.givesBack folder = false) :
    (o.apply c).flight? folder = (c.flight? folder).map (· || o.overtakes folder) := by
  have same : (c.flight? folder).map (· || false) = c.flight? folder := by
    simp only [Bool.or_false, Option.map_id']
  cases o with
  | add e path => exact flight?_add c e path folder
  | addChildren other entries =>
    refine (flight?_touchWhere c _ folder).trans ?_
    simp only [Operation.overtakes, eq_comm (a := folder)]
  | invalidate other => exact flight?_invalidate c other folder
  | remove path =>
    rw [Operation.apply]
    cases above : parent? (normalize path) with
    | none =>
      have top := (parent?_eq_none_iff (isNormal_normalize path)).mp above
      have cleared : c.remove path = c.clear := by rw [Cache.remove, above]
      rw [cleared, Operation.overtakes, top, isWithin_root, Bool.or_true]
      refine (flight?_touchWhere c _ folder).trans ?_
      rw [isWithin_root]
    | some parent =>
      rw [flight?_remove folder above, Operation.overtakes, above]
      simp only [Option.some.injEq, eq_comm (a := folder), Bool.or_comm (isWithin _ _)]
  | clear =>
    refine (flight?_touchWhere c _ folder).trans ?_
    rw [isWithin_root, Operation.overtakes]
  | beginFetch other =>
    refine Eq.trans ?_ same.symm
    cases begun : (c.beginFetch other).1 with
    | false => rw [Operation.apply, beginFetch_of_refused c other begun]
    | true =>
      rw [Operation.apply, (beginFetch_of_claimed c other begun).2,
        if_neg (normalize_ne_of_claimed c other folder claimed begun)]
  | finishFetch other entries =>
    refine Eq.trans ?_ same.symm
    rw [Operation.apply, flight?_finishFetch]
    exact if_neg (of_decide_eq_false kept)

/-- Once operations are over, a claim is stale if one of them has overtaken the listing. -/
theorem flight?_after (claimed : (c.flight? folder).isSome)
    (kept : ∀ o ∈ operations, o.givesBack folder = false) :
    (c.after operations).flight? folder =
      (c.flight? folder).map (· || operations.any (Operation.overtakes folder)) := by
  induction operations generalizing c with
  | nil => simp [after]
  | cons o rest ih =>
    have first := flight?_apply claimed (kept o (List.mem_cons_self ..))
    have later := ih (c := o.apply c) (by rwa [first, Option.isSome_map])
      fun o member => kept o (List.mem_cons_of_mem _ member)
    rw [after, List.foldl_cons]
    refine later.trans ?_
    rw [first, Option.map_map, List.any_cons]
    simp only [Function.comp_def, Bool.or_assoc]

/-- A claim that was got lasts, fresh until the listing is overtaken. -/
theorem flight?_after_beginFetch (claimed : (c.beginFetch folder).1 = true)
    (kept : ∀ o ∈ operations, o.givesBack (normalize folder) = false) :
    ((c.beginFetch folder).2.after operations).flight? (normalize folder) =
      some (operations.any (Operation.overtakes (normalize folder))) := by
  have got : (c.beginFetch folder).2.flight? (normalize folder) = some false := by
    rw [(beginFetch_of_claimed c folder claimed).2, if_pos rfl]
  rw [flight?_after (by rw [got]; rfl) kept, got, Option.map_some, Bool.false_or]

/-! ### The listing arrives -/

/-- Whether two caches answer every question about objects, folders and patterns alike. -/
structure SameAnswers (c c' : Cache) : Prop where
  get? : ∀ path, c'.get? path = c.get? path
  children? : ∀ folder, c'.children? folder = c.children? folder
  isLoaded : ∀ folder, c'.isLoaded folder = c.isLoaded folder
  matching : ∀ folder pattern, c'.matching folder pattern = c.matching folder pattern
  paths : c'.paths = c.paths

/-- Claims have no part in what a cache answers. -/
theorem SameAnswers.of_nodes (same : c'.nodes = c.nodes) : c.SameAnswers c' := by
  have names : c'.childNames? = c.childNames? := by
    funext folder
    rw [childNames?, childNames?, same]
  constructor
  · intro path
    rw [Cache.get?, Cache.get?, same]
  · intro folder
    rw [Cache.children?, Cache.children?, names, same]
  · intro folder
    rw [Cache.isLoaded, Cache.isLoaded, names]
  · intro folder pattern
    rw [Cache.matching, Cache.matching, names]
  · rw [Cache.paths, Cache.paths, same]

/-- Entries that are sorted by name come in ascending order. -/
theorem pairwise_mergeSort_name (entries : List Entry) :
    (entries.mergeSort fun a b => a.name ≤ b.name).Pairwise fun a b => a.name ≤ b.name := by
  refine (List.pairwise_mergeSort ?_ ?_ entries).imp of_decide_eq_true
  · simpa using fun a b c : Entry => le_trans (a := a.name)
  · simpa using fun a b : Entry => le_total a.name b.name

/-- The children of a folder that was just listed are those of the listing, by name. -/
theorem children?_install (c : Cache) (folder : String) (named : ∀ e ∈ entries, IsName e.name)
    (distinct : entries.Pairwise fun a b => a.name ≠ b.name) :
    (c.install (normalize folder) entries).children? folder =
      some (entries.mergeSort fun a b => a.name ≤ b.name) := by
  have perm := List.mergeSort_perm entries fun a b => a.name ≤ b.name
  have names : (Std.TreeSet.ofList (entries.map Entry.name)).toList =
      (entries.mergeSort fun a b => a.name ≤ b.name).map Entry.name := by
    refine List.Perm.eq_of_pairwise (fun a b _ _ => le_antisymm) ?_
      (List.pairwise_map.mpr (pairwise_mergeSort_name entries)) ?_
    · exact Std.TreeSet.ordered_toList.imp fun before => (compare_lt_iff_lt.mp before).le
    · refine (List.perm_ext_iff_of_nodup ?_ ?_).mpr fun name => ?_
      · exact Std.TreeSet.ordered_toList.imp fun before => (compare_lt_iff_lt.mp before).ne
      · refine (List.Perm.map Entry.name perm).nodup_iff.mpr ?_
        exact List.pairwise_map.mpr distinct
      · rw [Std.TreeSet.mem_toList, mem_ofList_iff]
        exact ((List.Perm.map Entry.name perm).mem_iff).symm
  rw [children?, childNames?_install_self, Option.map_some, names, List.filterMap_map,
    Option.some.injEq]
  refine (List.filterMap_congr fun e member => ?_).trans List.filterMap_some
  exact entryAt?_install_of_mem c (isNormal_normalize folder) named distinct
    (perm.mem_iff.mp member)

/-- Once a listing has arrived its folder can be claimed anew, unless its children are known. -/
theorem released_finishFetch (c : Cache) (folder : String) (listing : Option (List Entry)) :
    normalize folder ∉ (c.finishFetch folder listing).2.inFlight ∧
      ((c.finishFetch folder listing).2.beginFetch folder).1 =
        !(c.finishFetch folder listing).2.isLoaded folder := by
  have gone : (c.finishFetch folder listing).2.flight? (normalize folder) = none := by
    rw [flight?_finishFetch, if_pos rfl]
  refine ⟨fun member => ?_, ?_⟩
  · have there := Std.TreeMap.mem_iff_isSome_getElem?.mp member
    rw [← flight?, gone] at there
    cases there
  · have refused := beginFetch_eq_false_iff (c.finishFetch folder listing).2 folder
    rw [gone] at refused
    cases known : ((c.finishFetch folder listing).2.childNames? (normalize folder)).isSome with
    | true => simpa [isLoaded, known] using refused
    | false => simpa [isLoaded, known] using refused

/-- Whatever is done to a cache after the listing of a folder was claimed, until a listing of it is
delivered: the folder cannot be claimed again. If something overtook the listing, it is dropped, and
nothing that the cache answers depends on it. If all was done elsewhere, it is installed, and the
folder has its children. Either way the claim is given back, and the folder can be claimed anew
unless its children are known. -/
theorem finishFetch_after_claimed (claimed : (c.beginFetch folder).1 = true)
    (kept : ∀ o ∈ operations, o.givesBack (normalize folder) = false)
    (named : ∀ e ∈ entries, IsName e.name)
    (distinct : entries.Pairwise fun a b => a.name ≠ b.name) {spelling : String}
    (same : normalize spelling = normalize folder) {between final : Cache} {installed : Bool}
    (ran : (c.beginFetch folder).2.after operations = between)
    (finished : between.finishFetch spelling (some entries) = (installed, final)) :
    (∀ earlier, earlier <+: operations → ∀ other, normalize other = normalize folder →
      (((c.beginFetch folder).2.after earlier).beginFetch other).1 = false) ∧
    ((∃ o ∈ operations, o.overtakes (normalize folder)) →
      installed = false ∧ between.SameAnswers final) ∧
    ((∀ o ∈ operations, o.Aside (normalize folder)) → installed = true ∧
      final.children? spelling = some (entries.mergeSort fun a b => a.name ≤ b.name)) ∧
    normalize folder ∉ final.inFlight ∧
      (final.beginFetch spelling).1 = !final.isLoaded spelling := by
  subst ran
  have normal := isNormal_normalize folder
  have lasts := flight?_after_beginFetch claimed kept
  refine ⟨fun earlier before other alike => ?_, fun ⟨o, member, overtakes⟩ => ?_,
    fun aside => ?_, ?_⟩
  · have lasted := flight?_after_beginFetch claimed fun o member => kept o (before.subset member)
    exact (beginFetch_eq_false_iff _ other).mpr (Or.inr (by rw [alike, lasted]; rfl))
  · rw [List.any_eq_true.mpr ⟨o, member, overtakes⟩] at lasts
    rw [finishFetch_of_stale _ _ (Or.inl (by rw [same, lasts]; simp))] at finished
    cases finished
    exact ⟨rfl, .of_nodes rfl⟩
  · rw [List.any_eq_false.mpr fun o member => by
      simp [(aside o member).overtakes_eq_false normal]] at lasts
    rw [finishFetch_of_fresh _ _ (by rw [same, lasts])] at finished
    cases finished
    exact ⟨rfl, children?_install _ spelling named distinct⟩
  · have released := released_finishFetch ((c.beginFetch folder).2.after operations) spelling
      entries
    rwa [finished, same] at released

/-- Things that are done beside `/d`, in several spellings, and to a folder whose name begins
alike. -/
def elsewhere : List Operation :=
  [.beginFetch "e/", .addChildren "/x/../e" [⟨"f", .file, 1, 0, none⟩], .remove "//d-old"]

/-- The listing of `/d` is dropped because of an object that is noted in `/d`. Without that it is
installed. -/
theorem finishFetch_after_elsewhere :
    let claimed := Cache.empty.beginFetch "d"
    let noted := elsewhere ++ [.add ⟨"new", .file, 2, 0, none⟩ "/d/./new", .invalidate "/d/new"]
    let listing : List Entry := [⟨"b", .folder, 3, 0, none⟩, ⟨"a", .file, 4, 0, none⟩]
    claimed.1 = true ∧ (∀ o ∈ noted, o.givesBack "/d" = false) ∧ (∀ o ∈ elsewhere, o.Aside "/d") ∧
    (∃ o ∈ noted, o.overtakes "/d") ∧ (∀ e ∈ listing, IsName e.name) ∧
    ((claimed.2.after elsewhere).finishFetch "/d/" listing).2.children? "/d/" =
      some [⟨"a", .file, 4, 0, none⟩, ⟨"b", .folder, 3, 0, none⟩] ∧
    ((claimed.2.after noted).finishFetch "/d/" listing).1 = false ∧
    (claimed.2.after noted).SameAnswers ((claimed.2.after noted).finishFetch "/d/" listing).2 := by
  intro claimed noted listing
  have here : normalize "d" = "/d" := by decide +kernel
  have begun : claimed.1 = true := by decide +kernel
  have kept : ∀ o ∈ noted, o.givesBack "/d" = false := by decide +kernel
  have aside : ∀ o ∈ elsewhere, o.Aside "/d" := by decide +kernel
  have overtaken : ∃ o ∈ noted, o.overtakes "/d" := by decide +kernel
  have named : ∀ e ∈ listing, IsName e.name := by
    simp only [listing, List.forall_mem_cons, IsName, IsComponent, List.not_mem_nil, false_implies,
      implies_true, and_true]
    decide +kernel
  have distinct : listing.Pairwise fun a b => a.name ≠ b.name := by decide +kernel
  have same : normalize "/d/" = normalize "d" := by decide +kernel
  obtain ⟨-, -, installed, -⟩ := finishFetch_after_claimed begun (here ▸ fun o member =>
    kept o (List.mem_append_left _ member)) named distinct same rfl (Prod.eta _).symm
  obtain ⟨-, dropped, -⟩ := finishFetch_after_claimed begun (here ▸ kept) named distinct same rfl
    (Prod.eta _).symm
  refine ⟨begun, kept, aside, overtaken, named, ?_, (dropped (here ▸ overtaken)).1,
    (dropped (here ▸ overtaken)).2⟩
  rw [(installed (here ▸ aside)).2]
  have before : ¬ "b" ≤ "a" := by decide
  simp [listing, List.mergeSort, List.MergeSort.Internal.splitInTwo, before]

end StoreShell.Cache
