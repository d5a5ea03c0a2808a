import StoreShell.Proofs.ClaimLifetimes
import StoreShell.Proofs.Store

/-! # What happens elsewhere to the children of a folder

What a cache knows of the children of a folder is changed by operations on the folder itself, on its
children and on the folders above it, and by nothing else. An operation that touches neither the
folder nor one above it leaves its children as they are (`childrenKept_apply`). So does the arrival
of a listing of another folder, unless the listing is of a folder above and shows that the store does
not have the folder any more (`childrenKept_install`).

Nothing is assumed about the names under which others note objects. Only the way to the folder must
not be known under odd names (`NamedOnWay`), and it never is: it is known from listings.
-/

namespace StoreShell.Cache

open StoreShell.Path

namespace Operation

/-- Whether an operation is a change from outside and no part of a listing. -/
def isLocal : Operation → Bool
  | add .. | addChildren .. | invalidate _ | remove _ | clear => true
  | beginFetch _ | finishFetch .. => false

/-- Whether an operation touches a folder or one above it. -/
def Touches (folder : String) (o : Operation) : Prop :=
  ∃ other, IsNormal other ∧ isWithin folder other ∧ o.overtakes other

end Operation

/-- Whether a folder and those above it have their children under names that a folder can have for
them. -/
def NamedOnWay (folder : String) (c : Cache) : Prop :=
  ∀ {other names}, IsNormal other → isWithin folder other → c.childNames? other = some names →
    ∀ name ∈ names, IsName name

/-- Whether a cache knows of the children of a folder what another one knew. -/
structure ChildrenKept (folder : String) (c c' : Cache) : Prop where
  names : c'.childNames? folder = c.childNames? folder
  entries : c'.children? folder = c.children? folder

variable {c c' : Cache} {folder other : String} {entries : List Entry} {o : Operation}

/-- The folder itself is one of those on the way. -/
theorem NamedOnWay.self (named : c.NamedOnWay folder) (normal : IsNormal folder)
    {names : Std.TreeSet String} (loaded : c.childNames? folder = some names) :
    ∀ name ∈ names, IsName name :=
  named normal (isWithin_self folder) loaded

/-- The children of a folder are kept if their names and what is known at each of them are. -/
theorem childrenKept_of_lookups (normal : IsNormal folder) (named : c.NamedOnWay folder)
    (names : c'.childNames? folder = c.childNames? folder)
    (known : ∀ {name}, IsName name →
      c'.entryAt? (join folder name) = c.entryAt? (join folder name)) :
    c.ChildrenKept folder c' := by
  refine ⟨names, ?_⟩
  rw [children?, children?, normalize_of_isNormal normal, names]
  cases loaded : c.childNames? folder with
  | none => rfl
  | some all =>
    refine congrArg some (List.filterMap_congr fun name member => ?_)
    exact known (named.self normal loaded name (Std.TreeSet.mem_toList.mp member))

/-! ### Listings of other folders -/

/-- A listing of a folder that is not on the way keeps the children. -/
theorem childrenKept_install_of_apart (normal : IsNormal folder) (normal' : IsNormal other)
    (named : c.NamedOnWay folder) (apart : ¬ isWithin folder other) :
    c.ChildrenKept folder (c.install other entries) := by
  have deep : other ≠ root := by
    rintro rfl
    exact apart (isWithin_root folder)
  have below : ∀ {path name}, isWithin path (join other name) → isBelow path other :=
    isBelow_of_isWithin_join normal' deep
  have outside : ¬ isBelow folder other := fun below => apart (isWithin_iff.mpr (Or.inr below))
  have differ : folder ≠ other := fun same => apart (isWithin_iff.mpr (Or.inl same))
  have stays : ∀ {path}, ¬ isBelow path other → c.isGone other entries path = false := by
    intro path outside
    rw [Bool.eq_false_iff]
    intro gone
    obtain ⟨name, -, gone⟩ := List.any_eq_true.mp gone
    exact outside (below (Bool.and_eq_true_iff.mp gone).2)
  have aside : ∀ {path}, ¬ isBelow path other → ∀ e ∈ entries, join other e.name ≠ path :=
    fun outside e _ same => outside (below (isWithin_iff.mpr (Or.inl same.symm)))
  refine childrenKept_of_lookups normal named ?_ fun {name} isName => ?_
  · rw [childNames?_install_of_notMem c differ (aside outside), stays outside,
      if_neg Bool.false_ne_true]
  · have outside : ¬ isBelow (join folder name) other := fun below =>
      apart ((isBelow_join_iff normal isName normal').mp below)
    rw [entryAt?_install_of_notMem c (aside outside), stays outside, if_neg Bool.false_ne_true]

/-- A listing of another folder keeps the children or drops them, the latter only if the other folder
is above and the listing shows that the folder is gone or is no folder. -/
theorem childrenKept_install (normal : IsNormal folder) (normal' : IsNormal other)
    (named : c.NamedOnWay folder) (differ : folder ≠ other) (named' : ∀ e ∈ entries, IsName e.name)
    (distinct : entries.Pairwise fun a b => a.name ≠ b.name) :
    c.ChildrenKept folder (c.install other entries) ∨
      isWithin folder other ∧ (c.install other entries).childNames? folder = none ∧
        (c.isGone other entries folder ∨
          ∃ e ∈ entries, join other e.name = folder ∧ e.isFolder = false) := by
  by_cases within : isWithin folder other
  swap
  · exact Or.inl (childrenKept_install_of_apart normal normal' named within)
  have known : ∀ names, c.childNames? other = some names → ∀ name ∈ names, IsName name :=
    fun _ => named normal' within
  cases gone : c.isGone other entries folder with
  | true =>
    refine Or.inr ⟨within, Option.eq_none_iff_forall_ne_some.mpr fun names loaded => ?_, Or.inl rfl⟩
    have stays := (childNames?_of_install_of_ne c differ loaded).2
    rw [gone] at stays
    cases stays
  | false =>
    have entry : ∀ {name}, IsName name →
        (c.install other entries).entryAt? (join folder name) = c.entryAt? (join folder name) := by
      intro name isName
      rw [entryAt?_install_of_notMem c fun e member same =>
          differ ((join_inj normal' normal (named' e member) isName).mp same).1.symm,
        isGone_join normal' known normal isName differ, gone, if_neg Bool.false_ne_true]
    by_cases listed : ∃ e ∈ entries, join other e.name = folder
    · obtain ⟨e, member, rfl⟩ := listed
      cases folderly : e.isFolder with
      | true =>
        exact Or.inl (childrenKept_of_lookups normal named
          (childNames?_install_of_mem c normal' named' distinct member folderly gone) entry)
      | false =>
        refine Or.inr ⟨within, Option.eq_none_iff_forall_ne_some.mpr fun names loaded => ?_,
          Or.inr ⟨e, member, rfl, folderly⟩⟩
        have is := (childNames?_of_install c normal' named' distinct differ loaded).2.2 e member rfl
        rw [folderly] at is
        cases is
    · refine Or.inl (childrenKept_of_lookups normal named ?_ entry)
      rw [childNames?_install_of_notMem c differ fun e member same => listed ⟨e, member, same⟩,
        gone, if_neg Bool.false_ne_true]

/-- What the store lists elsewhere keeps the children of a folder that the store has. -/
theorem childrenKept_install_of_isListing {s : Store} {listed : List Entry} (sound : s.Sound)
    (normal : IsNormal folder) (normal' : IsNormal other) (named : c.NamedOnWay folder)
    (differ : folder ≠ other) (listing : s.IsListing other listed) (shuffled : entries.Perm listed)
    {o : StoredObject} (stored : s.get? folder = some o) (folderly : o.entry.isFolder) :
    c.ChildrenKept folder (c.install other entries) := by
  have inside : ∀ {e}, e ∈ entries → e ∈ listed := shuffled.mem_iff.mp
  have distinct : entries.Pairwise fun a b => a.name ≠ b.name :=
    (shuffled.pairwise_iff fun differ => differ.symm).mpr listing.distinct
  refine (childrenKept_install normal normal' named differ
    (fun e member => listing.named e (inside member)) distinct).resolve_right ?_
  rintro ⟨way, -, gone | ⟨e, member, rfl, noFolder⟩⟩
  · obtain ⟨name, isName, unlisted, within⟩ := exists_of_isGone normal' normal gone
      fun _ => named normal' way
    have there := sound.of_isWithin stored (normal'.join isName) within
    obtain ⟨e, member, same⟩ := List.mem_map.mp
      ((listing.mem_names sound normal' name).mpr ⟨isName, there⟩)
    exact unlisted e (shuffled.mem_iff.mpr member) same
  · obtain ⟨-, o', stored', rfl⟩ := (listing.mem e).mp (inside member)
    rw [stored, Option.some.injEq] at stored'
    subst stored'
    rw [folderly] at noFolder
    cases noFolder

/-- The names on the way stay as they are, or are those of the listing. -/
theorem NamedOnWay.install (named : c.NamedOnWay folder) (named' : ∀ e ∈ entries, IsName e.name) :
    (c.install other entries).NamedOnWay folder := by
  intro above names normal within loaded name member
  by_cases same : above = other
  · subst same
    obtain ⟨e, inside, rfl⟩ := List.mem_map.mp ((mem_childNames?_install_self c loaded).mp member)
    exact named' e inside
  · exact named normal within (childNames?_of_install_of_ne c same loaded).1 name member

/-! ### Operations elsewhere -/

/-- A change from outside takes no claim and gives none back. -/
theorem isSome_flight?_apply (isLocal : o.isLocal) (folder : String) :
    ((o.apply c).flight? folder).isSome = (c.flight? folder).isSome := by
  cases o with
  | add e path => exact isSome_flight?_add c path folder e
  | addChildren other entries => exact isSome_flight?_addChildren c other folder entries
  | invalidate other => exact isSome_flight?_invalidate c other folder
  | remove path => exact isSome_flight?_remove c path folder
  | clear => exact isSome_flight?_clear c folder
  | beginFetch | finishFetch => cases isLocal

section Elsewhere

variable (isLocal : o.isLocal) (apart : ¬ o.Touches folder)

include isLocal apart

/-- An operation that touches nothing on the way gives no folder on the way any children. -/
theorem childNames?_of_apply {above : String} (normalAbove : IsNormal above)
    (within : isWithin folder above) {names : Std.TreeSet String}
    (loaded : (o.apply c).childNames? above = some names) : c.childNames? above = some names := by
  have spared : ¬ o.overtakes above := fun overtakes =>
    apart ⟨above, normalAbove, within, overtakes⟩
  cases o with
  | add e path =>
    rw [Operation.apply, childNames?_add, if_neg (by simpa [Operation.overtakes] using spared)]
      at loaded
    exact loaded
  | addChildren other entries =>
    have differ : above ≠ normalize other := fun same => spared (decide_eq_true same.symm)
    exact (childNames?_of_install_of_ne _ differ loaded).1
  | invalidate other =>
    rw [Operation.apply, childNames?_invalidate, if_neg (by simpa [Operation.overtakes] using spared)]
      at loaded
    exact loaded
  | remove path =>
    simp only [Operation.overtakes, Bool.or_eq_true, decide_eq_true_eq, not_or] at spared
    cases parent : parent? (normalize path) with
    | none =>
      rw [(parent?_eq_none_iff (isNormal_normalize path)).mp parent] at spared
      exact absurd (isWithin_root above) spared.2
    | some p =>
      rw [parent, Option.some.injEq] at spared
      rw [Operation.apply, childNames?_remove _ parent, if_neg spared.2, if_neg spared.1] at loaded
      exact loaded
  | clear => exact absurd rfl spared
  | beginFetch | finishFetch => cases isLocal

/-- Operations keep the names of children proper on the way to a folder. -/
theorem NamedOnWay.apply (named : c.NamedOnWay folder) : (o.apply c).NamedOnWay folder :=
  fun normal within loaded =>
    named normal within (childNames?_of_apply isLocal apart normal within loaded)

/-- An operation that touches nothing on the way keeps the children. -/
theorem childrenKept_apply (normal : IsNormal folder) (named : c.NamedOnWay folder) :
    c.ChildrenKept folder (o.apply c) := by
  have spared : ¬ o.overtakes folder := fun overtakes =>
    apart ⟨folder, normal, isWithin_self folder, overtakes⟩
  cases o with
  | add e path =>
    have aside : parent? (normalize path) ≠ some folder := by
      simpa [Operation.overtakes] using spared
    refine childrenKept_of_lookups normal named ?_ fun {name} isName => ?_
    · rw [Operation.apply, childNames?_add, if_neg aside]
    · rw [Operation.apply, entryAt?_add, if_neg]
      intro same
      exact aside (same ▸ parent?_join normal isName)
  | addChildren other entries =>
    have outside : ¬ isWithin folder (normalize other) := fun within =>
      apart ⟨normalize other, isNormal_normalize other, within, decide_eq_true rfl⟩
    have kept : (c.touch (normalize other)).ChildrenKept folder
        ((c.touch (normalize other)).install (normalize other) entries) :=
      childrenKept_install_of_apart normal (isNormal_normalize other) named outside
    exact ⟨kept.names, kept.entries⟩
  | invalidate other =>
    have outside : ¬ isWithin folder (normalize other) := by
      simpa [Operation.overtakes] using spared
    refine childrenKept_of_lookups normal named ?_ fun {name} isName => ?_
    · rw [Operation.apply, childNames?_invalidate, if_neg outside]
    · rw [Operation.apply, entryAt?_invalidate, if_neg]
      rwa [isBelow_join_iff normal isName (isNormal_normalize other)]
  | remove path =>
    simp only [Operation.overtakes, Bool.or_eq_true, decide_eq_true_eq, not_or] at spared
    cases parent : parent? (normalize path) with
    | none =>
      rw [(parent?_eq_none_iff (isNormal_normalize path)).mp parent] at spared
      exact absurd (isWithin_root folder) spared.2
    | some p =>
      refine childrenKept_of_lookups normal named ?_ fun {name} isName => ?_
      · rw [parent, Option.some.injEq] at spared
        rw [Operation.apply, childNames?_remove _ parent, if_neg spared.2, if_neg spared.1]
      · rw [Operation.apply, entryAt?_remove _ parent, if_neg]
        rw [isWithin_iff, isBelow_join_iff normal isName (isNormal_normalize path), not_or]
        exact ⟨fun same => spared.1 (same ▸ parent?_join normal isName), spared.2⟩
  | clear => exact absurd rfl spared
  | beginFetch | finishFetch => cases isLocal

/-- An operation that touches nothing on the way leaves the claim on the folder as it is. -/
theorem flight?_apply_of_not_touches (normal : IsNormal folder) :
    (o.apply c).flight? folder = c.flight? folder := by
  have spared : o.overtakes folder = false := Bool.eq_false_iff.mpr fun overtakes =>
    apart ⟨folder, normal, isWithin_self folder, overtakes⟩
  have kept : o.givesBack folder = false := by
    cases o with
    | finishFetch => cases isLocal
    | _ => rfl
  cases claimed : c.flight? folder with
  | some stale =>
    rw [flight?_apply (by rw [claimed]; rfl) kept, claimed, spared, Option.map_some, Bool.or_false]
  | none =>
    have free := isSome_flight?_apply (c := c) isLocal folder
    rw [claimed] at free
    exact Option.not_isSome_iff_eq_none.mp (by rw [free]; decide)

end Elsewhere

end StoreShell.Cache
