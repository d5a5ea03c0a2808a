import StoreShell.Proofs.Path

/-! # Folders above a path

Going from a path to its parent again and again leads to the root, which is in no folder
(`exists_ancestor?_eq_root`). What is passed on the way are the folders that the path lies below, so
`isBelow`, which compares texts, is the order of the tree in which `parent?` goes one step
(`isBelow_iff_exists_ancestor?`).
-/

namespace StoreShell.Path

/-- The folder so many steps above a path, if the root is not passed before. -/
def ancestor? (path : String) : Nat → Option String
  | 0 => some path
  | steps + 1 => (parent? path).bind fun folder => ancestor? folder steps

variable {path folder other name : String}

/-- From an object in a folder it is one step further than from the folder. -/
theorem ancestor?_join (normal : IsNormal folder) (named : IsName name) (steps : Nat) :
    ancestor? (join folder name) (steps + 1) = ancestor? folder steps := by
  rw [ancestor?, parent?_join normal named, Option.bind_some]

/-- There are fewer steps to the root than there are characters in a path. -/
theorem exists_ancestor?_eq_root (normal : IsNormal path) :
    ∃ steps < path.toList.length, ancestor? path steps = some root := by
  refine IsNormal.induct (motive := fun path =>
    ∃ steps < path.toList.length, ancestor? path steps = some root) ?_ ?_ normal
  · exact ⟨0, by decide, rfl⟩
  · rintro folder name normalFolder named ⟨steps, few, reached⟩
    have longer := length_lt_length_join folder named
    refine ⟨steps + 1, by omega, ?_⟩
    rw [ancestor?_join normalFolder named, reached]

/-- A path lies below the folders that are one or more steps above it. -/
theorem isBelow_iff_exists_ancestor? (normal : IsNormal path) (normal' : IsNormal folder) :
    isBelow path folder ↔ ∃ steps, ancestor? path (steps + 1) = some folder := by
  refine IsNormal.induct (motive := fun path =>
    isBelow path folder ↔ ∃ steps, ancestor? path (steps + 1) = some folder) ?_ ?_ normal
  · refine iff_of_false (not_isBelow_root normal') ?_
    rintro ⟨steps, reached⟩
    cases reached
  · intro above name normalAbove named ih
    rw [isBelow_join normalAbove named normal', ih]
    simp only [ancestor?_join normalAbove named]
    constructor
    · rintro (rfl | ⟨steps, reached⟩)
      · exact ⟨0, rfl⟩
      · exact ⟨steps + 1, reached⟩
    · rintro ⟨_ | steps, reached⟩
      · exact Or.inl (Option.some.inj reached)
      · exact Or.inr ⟨steps, reached⟩

/-- The normal paths are one tree. A folder and a name make up a path of which they are the parent and
the last component, and every path but the root is made up of its own; from every path the parents
lead to the root. A path lies below a folder exactly if the parents lead from it to the folder in
one or more steps. So no path lies below itself, what lies below a folder lies below all that the
folder lies below, and of two folders above one path one lies below the other, unless they are the
same. -/
theorem paths_form_tree (normal : IsNormal path) (normal' : IsNormal folder)
    (normal'' : IsNormal other) (named : IsName name) :
    (IsNormal (join folder name) ∧ parent? (join folder name) = some folder ∧
      fileName (join folder name) = name) ∧
    (path ≠ root → ∃ above, parent? path = some above ∧ join above (fileName path) = path) ∧
    (∃ steps < path.toList.length, ancestor? path steps = some root) ∧
    (isBelow path folder ↔ ∃ steps, ancestor? path (steps + 1) = some folder) ∧
    ¬ isBelow path path ∧
    (isBelow path folder → isBelow folder other → isBelow path other) ∧
    (isBelow path folder → isBelow path other →
      folder = other ∨ isBelow folder other ∨ isBelow other folder) := by
  refine ⟨⟨normal'.join named, parent?_join normal' named, fileName_join normal' named⟩, ?_,
    exists_ancestor?_eq_root normal, isBelow_iff_exists_ancestor? normal normal',
    not_isBelow_self normal, isBelow_trans normal normal' normal'', ?_⟩
  · intro deep
    obtain ⟨above, parent⟩ := normal.exists_parent? deep
    exact ⟨above, parent, (normal.of_parent? parent).2.2⟩
  · intro first second
    rcases isWithin_or_isWithin normal normal' normal'' (isWithin_iff.mpr (Or.inr first))
      (isWithin_iff.mpr (Or.inr second)) with inside | around
    · exact (isWithin_iff.mp inside).imp_right Or.inl
    · rcases isWithin_iff.mp around with same | below
      · exact Or.inl same.symm
      · exact Or.inr (Or.inr below)

/-- `/a/b` and `/a` are above `/a/b/c`, and a child of `/a/b` may be called like a part of either. -/
theorem paths_form_tree_deep :
    IsNormal "/a/b/c" ∧ IsNormal "/a/b" ∧ IsNormal "/a" ∧ IsName "ab" ∧
    parent? (join "/a/b" "ab") = some "/a/b" ∧ fileName (join "/a/b" "ab") = "ab" ∧
    (∃ above, parent? "/a/b/c" = some above ∧ join above (fileName "/a/b/c") = "/a/b/c") ∧
    (∃ steps < 6, ancestor? "/a/b/c" steps = some root) ∧
    (∃ steps, ancestor? "/a/b/c" (steps + 1) = some "/a/b") ∧
    isBelow "/a/b/c" "/a" ∧ (isBelow "/a/b" "/a" ∨ isBelow "/a" "/a/b") := by
  have normal : IsNormal "/a/b/c" := isNormal_iff.mpr (by decide +kernel)
  have normal' : IsNormal "/a/b" := isNormal_iff.mpr (by decide +kernel)
  have normal'' : IsNormal "/a" := isNormal_iff.mpr (by decide +kernel)
  have named : IsName "ab" := by
    rw [IsName, IsComponent]
    decide +kernel
  obtain ⟨⟨-, parent, called⟩, made, up, passed, -, trans, comparable⟩ :=
    paths_form_tree normal normal' normal'' named
  have first : isBelow "/a/b/c" "/a/b" := by decide +kernel
  have second := trans first (by decide +kernel)
  exact ⟨normal, normal', normal'', named, parent, called, made (by decide), up, passed.mp first,
    second, (comparable first second).resolve_left (by decide)⟩

end StoreShell.Path
