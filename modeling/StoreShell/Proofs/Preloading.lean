import Mathlib.Data.List.Nodup
import StoreShell.Proofs.Browsing
import StoreShell.Proofs.StoreTrees

/-! # Preloading

`Store.FolderAt` says how many levels a folder lies below another one. The levels that a shell lists
when it preloads are made from each other, `Remote.level`; what is below a folder that cannot be
listed is left out. `mem_level_iff` says which folders these are, and as no folder is on two levels
each of them is listed once. Running follows the levels: one folder, one level, all of them.
-/

namespace StoreShell

open StoreShell.Path

/-! ### Folders below a folder -/

namespace Store

variable {s : Store} {top path folder : String} {n : Nat}

/-- Whether a folder lies so many levels below another one, or is that one. -/
inductive FolderAt (s : Store) (top : String) : Nat → String → Prop where
  | top {o} : s.get? top = some o → o.entry.isFolder → FolderAt s top 0 top
  | inside {n folder path o} : FolderAt s top n folder → parent? path = some folder →
      s.get? path = some o → o.entry.isFolder → FolderAt s top (n + 1) path

/-- On every level there are folders of the store. -/
theorem FolderAt.exists_get? (at_ : s.FolderAt top n path) :
    ∃ o, s.get? path = some o ∧ o.entry.isFolder := by
  cases at_ with
  | top found folderly => exact ⟨_, found, folderly⟩
  | inside _ _ found folderly => exact ⟨_, found, folderly⟩

theorem FolderAt.normal (at_ : s.FolderAt top n path) (sound : s.Sound) : IsNormal path := by
  obtain ⟨o, found, -⟩ := at_.exists_get?
  exact sound.normal found

/-- All levels lie within the folder at the top. -/
theorem FolderAt.isWithin (at_ : s.FolderAt top n path) (sound : s.Sound) (normal : IsNormal top) :
    isWithin path top := by
  induction at_ with
  | top _ _ => exact isWithin_self top
  | inside at_ parent found _ ih =>
    exact isWithin_iff.mpr (Or.inr
      ((isBelow_iff_of_parent? (sound.normal found) parent normal).mpr ih))

/-- The folder itself lies on no other level. -/
theorem FolderAt.eq_zero (at_ : s.FolderAt top n top) (sound : s.Sound)
    (normal : IsNormal top) : n = 0 := by
  cases at_ with
  | top _ _ => rfl
  | inside at_ parent _ _ =>
    have above := (isBelow_iff_of_parent? normal parent normal).mpr (at_.isWithin sound normal)
    exact absurd above (not_isBelow_self normal)

/-- A folder is on one level only. By induction on the level: folders have one folder above them. -/
theorem FolderAt.unique {m : Nat} (first : s.FolderAt top m path) (second : s.FolderAt top n path)
    (sound : s.Sound) (normal : IsNormal top) : m = n := by
  induction first generalizing n with
  | top _ _ => exact (second.eq_zero sound normal).symm
  | inside first parent _ _ ih =>
    cases second with
    | top found folderly =>
      have above := (isBelow_iff_of_parent? normal parent normal).mpr (first.isWithin sound normal)
      exact absurd above (not_isBelow_self normal)
    | inside second parent' _ _ =>
      rw [parent, Option.some.injEq] at parent'
      subst parent'
      rw [ih second]

end Store

/-! ### Levels -/

namespace Remote

variable {r : Remote} {top path folder : String} {n : Nat}

/-- The folders that listing a folder leads to. -/
def below (r : Remote) (folder : String) : List String :=
  match r.listing folder with
  | .ok entries => Task.subfolders folder entries
  | .error _ => []

/-- The folders that are listed one level after the other, from one folder on. -/
def level (r : Remote) (top : String) : Nat → List String
  | 0 => [top]
  | n + 1 => (r.level top n).flatMap r.below

/-- A folder can be listed if it is one and the service does not refuse. -/
theorem isOk_listing_iff (sound : r.store.Sound) (normal : IsNormal folder) :
    (r.listing folder).isOk ↔ r.refusal? folder = none ∧
      ∃ o, r.store.get? folder = some o ∧ o.entry.isFolder := by
  rw [listing]
  cases r.refusal? folder with
  | some failure => exact iff_of_false Bool.false_ne_true (Option.some_ne_none failure ∘ And.left)
  | none =>
    refine Iff.trans ?_ (and_iff_right rfl).symm
    constructor
    · intro lists
      cases listed : r.store.list folder with
      | error failure =>
        simp only [listed] at lists
        cases lists
      | ok entries => exact (Store.isListing_of_list sound normal listed).isFolder
    · rintro ⟨o, found, folderly⟩
      obtain ⟨entries, listed, -⟩ := Store.exists_isListing sound normal found folderly
      simp only [listed]
      rfl

/-- Listing a folder leads to the folders in it, if it can be listed. -/
theorem mem_below_iff (sound : r.store.Sound) (normal : IsNormal folder) {o : StoredObject}
    (found : r.store.get? folder = some o) (folderly : o.entry.isFolder) :
    path ∈ r.below folder ↔ r.refusal? folder = none ∧ parent? path = some folder ∧
      ∃ o, r.store.get? path = some o ∧ o.entry.isFolder := by
  rw [below, listing]
  cases r.refusal? folder with
  | some failure =>
    exact iff_of_false List.not_mem_nil (Option.some_ne_none failure ∘ And.left)
  | none =>
    obtain ⟨entries, listed, isListing⟩ := Store.exists_isListing sound normal found folderly
    simp only [listed, Task.subfolders, List.mem_map, List.mem_filter, true_and]
    constructor
    · rintro ⟨e, ⟨member, folderly⟩, rfl⟩
      obtain ⟨named, o, stored, rfl⟩ := (isListing.mem e).mp member
      exact ⟨parent?_join normal named, o, stored, folderly⟩
    · rintro ⟨parent, o, stored, folderly⟩
      obtain ⟨-, named, same⟩ := (sound.normal stored).of_parent? parent
      have called := sound.named stored
      rw [← called] at named same
      exact ⟨o.entry, ⟨(isListing.mem _).mpr ⟨named, o, same.symm ▸ stored, rfl⟩, folderly⟩, same⟩

/-- The folders in a folder are different. -/
theorem nodup_below (sound : r.store.Sound) (normal : IsNormal folder) : (r.below folder).Nodup := by
  rw [below, listing]
  cases r.refusal? folder with
  | some failure => exact List.nodup_nil
  | none =>
    dsimp only
    cases listed : r.store.list folder with
    | error failure => exact List.nodup_nil
    | ok entries =>
      have isListing := Store.isListing_of_list sound normal listed
      refine List.pairwise_map.mpr (List.Pairwise.imp_of_mem ?_
        (isListing.distinct.filter Entry.isFolder))
      intro a b member member' differ same
      have named := isListing.named a (List.mem_filter.mp member).1
      have named' := isListing.named b (List.mem_filter.mp member').1
      exact differ ((join_inj normal normal named named').mp same).2

/-- Whether no folder from `top` on above a path fails to be listed. -/
def Clear (r : Remote) (top path : String) : Prop :=
  ∀ folder n, r.store.FolderAt top n folder → isBelow path folder → r.refusal? folder = none

theorem clear_top (sound : r.store.Sound) (normal : IsNormal top) : r.Clear top top := by
  intro folder n at_ below
  have normal' := at_.normal sound
  exact absurd (at_.isWithin sound normal) (not_isWithin_of_isBelow normal normal' below)

/-- The way to a path is clear if the way to its folder is and the folder can be listed. -/
theorem clear_inside_iff (sound : r.store.Sound) (at_ : r.store.FolderAt top n folder)
    (normal : IsNormal path) (parent : parent? path = some folder) :
    r.Clear top path ↔ r.refusal? folder = none ∧ r.Clear top folder := by
  have within : ∀ {q}, IsNormal q → (isBelow path q ↔ folder = q ∨ isBelow folder q) :=
    fun normal' => (isBelow_iff_of_parent? normal parent normal').trans isWithin_iff
  constructor
  · intro clear
    refine ⟨clear folder n at_ ((within (at_.normal sound)).mpr (Or.inl rfl)), ?_⟩
    intro q m at_' below
    exact clear q m at_' ((within (at_'.normal sound)).mpr (Or.inr below))
  · rintro ⟨lists, clear⟩ q m at_' below
    rcases (within (at_'.normal sound)).mp below with rfl | below
    · exact lists
    · exact clear q m at_' below

/-- The folders on a level are those so deep that the way to them is clear. -/
theorem mem_level_iff (sound : r.store.Sound) (normal : IsNormal top) {o : StoredObject}
    (found : r.store.get? top = some o) (folderly : o.entry.isFolder) :
    path ∈ r.level top n ↔ r.store.FolderAt top n path ∧ r.Clear top path := by
  induction n generalizing path with
  | zero =>
    rw [level, List.mem_singleton]
    constructor
    · rintro rfl
      exact ⟨.top found folderly, clear_top sound normal⟩
    · rintro ⟨at_, -⟩
      cases at_
      rfl
  | succ n ih =>
    rw [level, List.mem_flatMap]
    constructor
    · rintro ⟨folder, member, inside⟩
      obtain ⟨at_, clear⟩ := ih.mp member
      obtain ⟨o, found, folderly⟩ := at_.exists_get?
      obtain ⟨lists, parent, o', found', folderly'⟩ :=
        (mem_below_iff sound (sound.normal found) found folderly).mp inside
      refine ⟨.inside at_ parent found' folderly', ?_⟩
      exact (clear_inside_iff sound at_ (sound.normal found') parent).mpr ⟨lists, clear⟩
    · rintro ⟨at_, clear⟩
      cases at_ with
      | inside at_ parent found' folderly' =>
        obtain ⟨lists, clear⟩ :=
          (clear_inside_iff sound at_ (sound.normal found') parent).mp clear
        obtain ⟨o, found, folderly⟩ := at_.exists_get?
        exact ⟨_, ih.mpr ⟨at_, clear⟩, (mem_below_iff sound (sound.normal found) found folderly).mpr
          ⟨lists, parent, _, found', folderly'⟩⟩

/-- No folder is twice on a level. -/
theorem nodup_level (sound : r.store.Sound) (normal : IsNormal top) {o : StoredObject}
    (found : r.store.get? top = some o) (folderly : o.entry.isFolder) (n : Nat) :
    (r.level top n).Nodup := by
  induction n with
  | zero => exact List.nodup_singleton top
  | succ n ih =>
    have at_ : ∀ folder ∈ r.level top n, r.store.FolderAt top n folder := fun folder member =>
      ((mem_level_iff sound normal found folderly).mp member).1
    rw [level, List.nodup_flatMap]
    refine ⟨fun folder member => nodup_below sound ((at_ folder member).normal sound), ?_⟩
    refine List.Pairwise.imp_of_mem ?_ ih
    intro a b member member' differ path inside inside'
    obtain ⟨o, found, folderly⟩ := (at_ a member).exists_get?
    obtain ⟨o', found', folderly'⟩ := (at_ b member').exists_get?
    have parent := ((mem_below_iff sound (sound.normal found) found folderly).mp inside).2.1
    have parent' := ((mem_below_iff sound (sound.normal found') found' folderly').mp inside').2.1
    rw [parent, Option.some.injEq] at parent'
    exact differ parent'

/-- Behind an empty level all levels are empty. -/
theorem level_eq_nil (none : r.level top n = []) (more : Nat) : r.level top (n + more) = [] := by
  induction more with
  | zero => exact none
  | succ more ih =>
    rw [← Nat.add_assoc, level, ih]
    rfl

/-- The folders on so many levels from one on. -/
def levels (r : Remote) (top : String) (first count : Nat) : List String :=
  (List.range' first count).flatMap (r.level top)

/-- A folder is on some level of a row if it is on one of these levels. -/
theorem mem_levels_iff {first count : Nat} :
    path ∈ r.levels top first count ↔ ∃ n, first ≤ n ∧ n < first + count ∧ path ∈ r.level top n := by
  simp only [levels, List.mem_flatMap, List.mem_range'_1, and_assoc]

/-- No folder is on two levels, so none is listed twice. -/
theorem nodup_levels (sound : r.store.Sound) (normal : IsNormal top) {o : StoredObject}
    (found : r.store.get? top = some o) (folderly : o.entry.isFolder) (first count : Nat) :
    (r.levels top first count).Nodup := by
  rw [levels, List.nodup_flatMap]
  refine ⟨fun n _ => nodup_level sound normal found folderly n, ?_⟩
  refine List.Pairwise.imp ?_ (List.pairwise_lt_range' 1)
  intro m n before path member member'
  have at_ := ((mem_level_iff sound normal found folderly).mp member).1
  have at_' := ((mem_level_iff sound normal found folderly).mp member').1
  exact Nat.ne_of_lt before (at_.unique at_' sound normal)

/-- The levels of a row are the first one and those behind it. -/
theorem levels_succ (r : Remote) (top : String) (first count : Nat) :
    r.levels top first (count + 1) = r.level top first ++ r.levels top (first + 1) count := by
  rw [levels, List.range'_succ, List.flatMap_cons]
  rfl

def lists (r : Remote) (folder : String) : Bool := (r.listing folder).isOk

end Remote

/-! ### Running -/

/-- Whether a world has come from another one by listing folders one after the other: the service was
called once for each of them, and those that it lists are known. -/
structure World.HasListed (cache remote : Nat) (r : Remote) (s : Store) (folders : List String)
    (w w' : World) : Prop where
  still : w'.Still cache remote r s
  calls : (w'.remoteAt remote).calls =
    (folders.map Call.listFolder).reverse ++ (w.remoteAt remote).calls
  known : ∀ other, ((w'.cacheAt cache).childNames? other).isSome ↔
    ((w.cacheAt cache).childNames? other).isSome ∨ other ∈ folders ∧ r.lists other

section HasListed

open World

variable {r : Remote} {s : Store} {cache remote : Nat} {folders more : List String}
  {folder : String} {w w₁ w₂ : World}

theorem hasListed_nil (still : w.Still cache remote r s) : HasListed cache remote r s [] w w :=
  ⟨still, rfl, fun other => by simp⟩

/-- Folders listed in two goes are listed in one. -/
theorem World.HasListed.append (first : HasListed cache remote r s folders w w₁)
    (second : HasListed cache remote r s more w₁ w₂) :
    HasListed cache remote r s (folders ++ more) w w₂ where
  still := second.still
  calls := by rw [second.calls, first.calls, List.map_append, List.reverse_append, List.append_assoc]
  known other := by rw [second.known, first.known, List.mem_append, or_assoc, or_and_right]

/-- What was not known and has not been listed is not known. -/
theorem World.HasListed.unknown (listed : HasListed cache remote r s folders w w₁)
    (before : (w.cacheAt cache).childNames? folder = none) (other : folder ∉ folders) :
    (w₁.cacheAt cache).childNames? folder = none := by
  rw [← Option.not_isSome_iff_eq_none, listed.known, before]
  rintro (nothing | ⟨inside, -⟩)
  · cases nothing
  · exact other inside

/-- A folder that is not known is listed once. -/
theorem World.Still.hasListed (still : w.Still cache remote r s) (presents : Presents r s)
    (normal : IsNormal folder) (unknown : (w.cacheAt cache).childNames? folder = none) :
    ∃ w', (Task.attempt (Task.ensureChildren cache remote folder)).Finds w (r.listing folder) w' ∧
      HasListed cache remote r s [folder] w w' := by
  obtain ⟨w', found, still', calls, known⟩ := still.ensureChildren_of_unknown presents normal unknown
  refine ⟨w', found, still', calls, fun other => ?_⟩
  rw [known, List.mem_singleton]
  refine or_congr_right (and_congr_right ?_)
  rintro rfl
  rfl

end HasListed

namespace Task

variable {r : Remote} {s : Store} {cache remote : Nat} {top : String} {w : World}

/-- A level is listed folder by folder. What is below is listed next. -/
theorem finds_preloadLevel (presents : World.Presents r s) {folders : List String}
    (still : w.Still cache remote r s) (normal : ∀ folder ∈ folders, IsNormal folder)
    (nodup : folders.Nodup)
    (unknown : ∀ folder ∈ folders, (w.cacheAt cache).childNames? folder = none)
    (top_lists : top ∈ folders → r.lists top) :
    ∃ w', (preloadLevel cache remote top folders).Finds w
        (folders.countP r.lists, folders.flatMap r.below) w' ∧
      World.HasListed cache remote r s folders w w' := by
  induction folders generalizing w with
  | nil => exact ⟨w, finds_pure _ w, hasListed_nil still⟩
  | cons folder rest ih =>
    obtain ⟨new, nodup⟩ := List.nodup_cons.mp nodup
    obtain ⟨w₁, found, listed₁⟩ := still.hasListed presents
      (normal folder (List.mem_cons_self ..)) (unknown folder (List.mem_cons_self ..))
    have unknown₁ : ∀ other ∈ rest, (w₁.cacheAt cache).childNames? other = none := by
      intro other member
      refine listed₁.unknown (unknown other (List.mem_cons_of_mem _ member)) ?_
      rw [List.mem_singleton]
      rintro rfl
      exact new member
    obtain ⟨w₂, found₂, listed₂⟩ := ih listed₁.still
      (fun other member => normal other (List.mem_cons_of_mem _ member)) nodup unknown₁
      (fun member => top_lists (List.mem_cons_of_mem _ member))
    refine ⟨w₂, found.andThen ?_, listed₁.append listed₂⟩
    cases listed : r.listing folder with
    | error failure =>
      have fails : ¬ r.lists folder := by
        rw [Remote.lists, listed]
        exact Bool.false_ne_true
      have below : r.below folder = [] := by rw [Remote.below, listed]
      have lower : folder ≠ top := by
        rintro rfl
        exact fails (top_lists (List.mem_cons_self ..))
      rw [List.countP_cons_of_neg fails, List.flatMap_cons, below, List.nil_append]
      dsimp only
      rw [if_neg lower]
      exact found₂
    | ok children =>
      have lists : r.lists folder := by
        rw [Remote.lists, listed]
        rfl
      have below : r.below folder = subfolders folder children := by rw [Remote.below, listed]
      rw [List.countP_cons_of_pos lists, List.flatMap_cons, below]
      exact found₂.andThen (finds_pure _ _)

/-- Levels are listed one after the other. Nothing on them is known before. -/
theorem finds_preloadLevels (presents : World.Presents r s) (sound : r.store.Sound)
    (normal : IsNormal top) {o : StoredObject} (found : r.store.get? top = some o)
    (folderly : o.entry.isFolder) (top_lists : r.lists top) (count first : Nat)
    (still : w.Still cache remote r s)
    (unknown : ∀ folder ∈ r.levels top first count, (w.cacheAt cache).childNames? folder = none) :
    ∃ w', (preloadLevels cache remote top count (r.level top first)).Finds w
        ((r.levels top first count).countP r.lists) w' ∧
      World.HasListed cache remote r s (r.levels top first count) w w' := by
  induction count generalizing first w with
  | zero => exact ⟨w, finds_pure _ w, hasListed_nil still⟩
  | succ count ih =>
    cases level : r.level top first with
    | nil =>
      have nothing : r.levels top first (count + 1) = [] := by
        rw [Remote.levels, List.flatMap_eq_nil_iff]
        intro n member
        obtain ⟨more, rfl⟩ := Nat.exists_eq_add_of_le (List.mem_range'_1.mp member).1
        exact Remote.level_eq_nil level more
      rw [nothing]
      exact ⟨w, finds_pure _ w, hasListed_nil still⟩
    | cons folder rest =>
      have nodup := Remote.nodup_levels sound normal found folderly first (count + 1)
      rw [Remote.levels_succ] at unknown nodup
      rw [Remote.levels_succ, ← level]
      obtain ⟨nodupLevel, -, apart⟩ := List.nodup_append.mp nodup
      have normalLevel : ∀ folder ∈ r.level top first, IsNormal folder := fun folder member =>
        ((Remote.mem_level_iff sound normal found folderly).mp member).1.normal sound
      obtain ⟨w₁, found₁, listed₁⟩ := finds_preloadLevel presents still normalLevel
        nodupLevel (fun folder member => unknown folder (List.mem_append_left _ member))
        fun _ => top_lists
      have unknown₁ : ∀ other ∈ r.levels top (first + 1) count,
          (w₁.cacheAt cache).childNames? other = none := fun other member =>
        listed₁.unknown (unknown other (List.mem_append_right _ member)) fun inside =>
          apart other inside other member rfl
      obtain ⟨w₂, found₂, listed₂⟩ := ih (first + 1) listed₁.still unknown₁
      refine ⟨w₂, ?_, listed₁.append listed₂⟩
      rw [level] at found₁ ⊢
      rw [List.countP_append]
      refine found₁.andThen ?_
      rw [← level]
      exact Finds.andThen found₂ (finds_pure _ _)

end Task

/-! ### A new cache -/

namespace Store

variable {s : Store}

/-- What a tree lists, a store lists that has a root like a new one. -/
theorem exists_hasRoot_list_eq (sound : s.Sound) (tree : s.IsTree) :
    ∃ s' : Store, s'.Sound ∧ s'.HasRoot ∧ ∀ folder, s.list folder = s'.list folder := by
  obtain ⟨top, stored, folderly⟩ := tree.top
  have effect := fun path => get?_put s root path (.folder "" 0 0)
  have sound' : (s.put root (.folder "" 0 0)).2.Sound := by
    refine sound.put isNormal_root effect fileName_root.symm fun folder parent => ?_
    rw [parent?_root] at parent
    cases parent
  have hasRoot : (s.put root (.folder "" 0 0)).2.HasRoot :=
    ⟨_, (effect root).trans (if_pos rfl), rfl⟩
  refine ⟨_, sound', hasRoot, fun folder => ?_⟩
  rw [← list_normalize, ← list_normalize (s.put _ _).2]
  have normal := isNormal_normalize folder
  generalize normalize folder = folder at normal ⊢
  by_cases here : ∃ o, s.get? folder = some o ∧ o.entry.isFolder
  · obtain ⟨o, found, folderly⟩ := here
    obtain ⟨entries, listed, isListing⟩ := exists_isListing sound normal found folderly
    have isListing' : (s.put root (.folder "" 0 0)).2.IsListing folder entries := by
      refine ⟨?_, fun e => ?_, isListing.ordered⟩
      · rw [effect]
        split
        · exact ⟨_, rfl, rfl⟩
        · exact ⟨o, found, folderly⟩
      · rw [isListing.mem]
        refine and_congr_right fun named => ?_
        rw [effect, if_neg (Ne.symm (join_ne_root normal named))]
    obtain ⟨o', found', folderly'⟩ := isListing'.isFolder
    obtain ⟨entries', listed', again⟩ := exists_isListing sound' normal found' folderly'
    rw [listed, listed', isListing'.unique again]
  · have same : (s.put root (.folder "" 0 0)).2.get? folder = s.get? folder := by
      rw [effect, if_neg]
      rintro rfl
      exact here ⟨top, stored, folderly⟩
    rw [list, list, normalize_of_isNormal normal, same]
    cases found : s.get? folder with
    | none => rfl
    | some o =>
      have file : ¬ o.entry.isFolder := fun folderly => here ⟨o, found, folderly⟩
      simp only [if_neg file]

end Store

namespace Remote

/-- Whether a folder is less than so many levels below another one and can be listed, as can all
folders between. -/
def Reaches (r : Remote) (top : String) (depth : Nat) (path : String) : Prop :=
  ∃ n < depth, r.store.FolderAt top n path ∧ r.Clear top path ∧ r.refusal? path = none

/-- Whether a folder is less than so many levels below another one and cannot be listed, but all
folders between can. -/
def Stops (r : Remote) (top : String) (depth : Nat) (path : String) : Prop :=
  ∃ n < depth, r.store.FolderAt top n path ∧ r.Clear top path ∧ r.refusal? path ≠ none

section Reaches

variable {r : Remote} {top path : String} {depth : Nat} {o : StoredObject}

/-- What is listed is what can be reached and where it stops. -/
theorem mem_levels_zero_iff (sound : r.store.Sound) (normal : IsNormal top)
    (found : r.store.get? top = some o) (folderly : o.entry.isFolder) :
    path ∈ r.levels top 0 depth ↔ r.Reaches top depth path ∨ r.Stops top depth path := by
  rw [mem_levels_iff, Reaches, Stops, ← exists_or]
  refine exists_congr fun n => ?_
  rw [mem_level_iff sound normal found folderly, Nat.zero_add]
  by_cases lists : r.refusal? path = none
  · simp [lists]
  · simp [lists]

/-- Of what is listed, exactly the folders that can be reached are listed with success. -/
theorem mem_levels_zero_and_lists_iff (sound : r.store.Sound) (normal : IsNormal top)
    (found : r.store.get? top = some o) (folderly : o.entry.isFolder) :
    path ∈ r.levels top 0 depth ∧ r.lists path ↔ r.Reaches top depth path := by
  rw [mem_levels_zero_iff sound normal found folderly, lists]
  constructor
  · rintro ⟨reaches | ⟨n, -, at_, -, fails⟩, lists⟩
    · exact reaches
    · exact absurd ((isOk_listing_iff sound (at_.normal sound)).mp lists).1 fails
  · rintro ⟨n, less, at_, clear, unfailing⟩
    exact ⟨Or.inl ⟨n, less, at_, clear, unfailing⟩,
      (isOk_listing_iff sound (at_.normal sound)).mpr ⟨unfailing, at_.exists_get?⟩⟩

end Reaches

end Remote

/-- Preloading from a folder that can be listed calls the service once for each folder that is less
than so many levels below it, unless it is below a folder that cannot be listed, and for nothing
else. The folders that can be listed are counted and known afterwards, and no others are. Otherwise
the failure to list the first folder is that of the whole. At depth zero nothing is done. -/
theorem preload_lists {w : World} {cache remote : Nat} (remoteKept : remote < w.remotes.length)
    (cacheKept : cache < w.caches.length) (background : w.background = [])
    (fresh : w.cacheAt cache = .empty) (constant : (w.remoteAt remote).Constant)
    (sound : (w.remoteAt remote).store.Sound) (tree : (w.remoteAt remote).store.IsTree)
    (folder : String) (depth : Nat) :
    ∃ answer w', w.run? (Task.preload cache remote folder depth).toScript = some (answer, w') ∧
      (depth = 0 → answer = .ok 0 ∧ (w'.remoteAt remote).calls = (w.remoteAt remote).calls) ∧
      (∀ failure, (w.remoteAt remote).listing (normalize folder) = .error failure → 0 < depth →
        answer = .error failure) ∧
      (((w.remoteAt remote).listing (normalize folder)).isOk → ∃ counted tried : List String,
        answer = .ok counted.length ∧ counted.Nodup ∧
        (∀ path, path ∈ counted ↔ (w.remoteAt remote).Reaches (normalize folder) depth path) ∧
        (w'.remoteAt remote).calls = tried.map Call.listFolder ++ (w.remoteAt remote).calls ∧
        tried.Nodup ∧
        (∀ path, path ∈ tried ↔ (w.remoteAt remote).Reaches (normalize folder) depth path ∨
          (w.remoteAt remote).Stops (normalize folder) depth path) ∧
        ∀ path, (w'.cacheAt cache).isLoaded path ↔
          (w.remoteAt remote).Reaches (normalize folder) depth (normalize path)) := by
  obtain ⟨s, sound', hasRoot, lists⟩ := Store.exists_hasRoot_list_eq sound tree
  generalize service : w.remoteAt remote = r at constant sound tree lists ⊢
  have normal := isNormal_normalize folder
  rw [Task.preload]
  generalize normalize folder = top at normal ⊢
  have presents : World.Presents r s := ⟨constant, lists, sound'⟩
  have still : w.Still cache remote r s := by
    refine ⟨remoteKept, background, ⟨r.calls, r.listings, service⟩, cacheKept, ?_, ?_⟩
    · rw [fresh]
      exact fun folder => rfl
    · rw [fresh]
      exact Cache.mirrors_empty hasRoot
  have unknown : ∀ folder, (w.cacheAt cache).childNames? folder = none := by
    intro folder
    rw [fresh]
    exact Cache.childNames?_of_rootOnly rfl folder
  by_cases able : (r.listing top).isOk
  · obtain ⟨unfailing, o, found, folderly⟩ := (Remote.isOk_listing_iff sound normal).mp able
    obtain ⟨w', finds, -, calls, known⟩ := Task.finds_preloadLevels presents sound normal found
      folderly able depth 0 still fun folder _ => unknown folder
    have nodup := Remote.nodup_levels sound normal found folderly 0 depth
    have reached : ∀ {path}, path ∈ r.levels top 0 depth ∧ r.lists path ↔
        r.Reaches top depth path :=
      Remote.mem_levels_zero_and_lists_iff sound normal found folderly
    rw [service] at calls
    refine ⟨_, w', finds.run?, ?_, ?_, fun _ => ⟨(r.levels top 0 depth).filter r.lists,
      (r.levels top 0 depth).reverse, ?_, nodup.filter _, fun path => ?_, ?_,
      List.nodup_reverse.mpr nodup, fun path => ?_, fun path => ?_⟩⟩
    · rintro rfl
      exact ⟨rfl, calls⟩
    · intro failure fails
      rw [fails] at able
      cases able
    · rw [List.countP_eq_length_filter]
    · rw [List.mem_filter, reached]
    · rw [calls, List.map_reverse]
    · rw [List.mem_reverse, Remote.mem_levels_zero_iff sound normal found folderly]
    · rw [Cache.isLoaded, known, unknown, reached]
      simp
  · cases depth with
    | zero =>
      exact ⟨_, w, (Task.finds_pure 0 w).run?, fun _ => ⟨rfl, congrArg Remote.calls service⟩,
        fun failure _ deep => absurd deep (Nat.lt_irrefl 0), fun lists => absurd lists able⟩
    | succ depth =>
      obtain ⟨w', finds, -⟩ := still.hasListed presents normal (unknown top)
      cases listed : r.listing top with
      | ok entries =>
        rw [listed] at able
        exact absurd rfl able
      | error failure =>
        rw [listed] at finds
        refine ⟨.error failure, w', ?_, fun none => absurd none (Nat.succ_ne_zero depth),
          fun failure' same _ => ?_, fun lists => absurd lists Bool.false_ne_true⟩
        · rw [World.run?, Task.preloadLevels, Task.run?_andThen, Task.preloadLevel,
            Task.run?_andThen, finds _ rfl]
          simp only [Option.bind_some, if_pos]
          rfl
        · cases same
          rfl

section Barred

def twoBranches : List Store.Request :=
  [.makeFolder "/a" false, .makeFolder "/a/x" false, .write "/a/f" [1], .makeFolder "/b" false,
    .makeFolder "/b/y" false]

/-- A shell that has not looked at its store yet, where one of the two branches cannot be listed. -/
def barred : World where
  remotes := [{ store := Store.empty.after twoBranches,
                faults := [⟨"list_dir", "/b", .remote "offline", none⟩] }]

private theorem isTree_twoBranches : (Store.empty.after twoBranches).IsTree := by
  have trees := (Store.Built.empty.isTree_take_iff Store.isTree_empty twoBranches).mpr ?_
  · exact trees 5
  · rintro n r found ⟨path, rfl, -⟩
    have member := List.mem_of_getElem? found
    simp [twoBranches] at member

private theorem refusal?_barred (folder : String) :
    (barred.remoteAt 0).refusal? folder = if folder = "/b" then some (.remote "offline") else none := by
  by_cases here : folder = "/b"
  · subst here
    decide +kernel
  · have other : ¬ "/b" = folder := Ne.symm here
    rw [if_neg here]
    simp [Remote.refusal?, barred, World.remoteAt, Fault.take, Fault.concerns, Call.path, other]

/-- The branch that can be listed is known afterwards, of the other one nothing is. -/
theorem preload_barred : ∃ w', barred.run? (Task.preload 0 0 "/" 3).toScript = some (.ok 3, w') ∧
    (w'.cacheAt 0).isLoaded "/a/x" ∧ ¬ (w'.cacheAt 0).isLoaded "/b/y" := by
  obtain ⟨answer, w', ran, -, -, able⟩ := @preload_lists barred 0 0
    (by decide) (by decide) rfl rfl
    ⟨fun f member => by obtain rfl := List.mem_singleton.mp member; rfl, rfl⟩
    (Store.Built.empty.after twoBranches).sound isTree_twoBranches "/" 3
  obtain ⟨counted, tried, told, -, -, -, -, -, loaded⟩ := able (by decide +kernel)
  have three : (barred.run? (Task.preload 0 0 "/" 3).toScript).map (·.1.toOption) = some (some 3) := by
    decide +kernel
  rw [ran, told, Option.map_some, Option.some.injEq] at three
  rw [told] at ran
  have answer : Except.ok counted.length = (.ok 3 : Except Failure Nat) :=
    congrArg Except.ok (Option.some.inj three)
  have spelled : normalize "/" = "/" ∧ normalize "/a/x" = "/a/x" ∧ normalize "/b/y" = "/b/y" := by
    decide +kernel
  have top : (barred.remoteAt 0).store.FolderAt "/" 0 "/" :=
    .top (o := .folder "" 0 0) (by decide +kernel) rfl
  have inside : (barred.remoteAt 0).store.FolderAt "/" 1 "/a" :=
    .inside top (o := .folder "a" 1 1) (by decide +kernel) (by decide +kernel) rfl
  have beside : (barred.remoteAt 0).store.FolderAt "/" 1 "/b" :=
    .inside top (o := .folder "b" 4 4) (by decide +kernel) (by decide +kernel) rfl
  refine ⟨w', answer ▸ ran, (loaded _).mpr ?_, fun known => ?_⟩
  · rw [spelled.1, spelled.2.1]
    refine ⟨2, by decide, ?_, fun folder n at_ below => ?_, ?_⟩
    · exact .inside inside (o := .folder "x" 2 2) (by decide +kernel) (by decide +kernel) rfl
    · rw [refusal?_barred, if_neg]
      rintro rfl
      exact absurd below (by decide +kernel)
    · rw [refusal?_barred, if_neg (by decide)]
  · have reaches := (loaded _).mp known
    rw [spelled.1, spelled.2.2] at reaches
    obtain ⟨-, -, -, clear, -⟩ := reaches
    have unfailing := clear "/b" 1 beside (by decide +kernel)
    rw [refusal?_barred, if_pos rfl] at unfailing
    cases unfailing

end Barred

end StoreShell
