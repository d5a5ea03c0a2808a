import Mathlib.Data.List.Nodup
import StoreShell.Glob.Expansion
import StoreShell.Proofs.Store

/-! # Walks along a pattern

What a pattern stands for, said without a cache: a walk goes through the components of the pattern
and puts a name in the place of each, so that the names lead through folders of the store. `Walk` is
this relation; `walks` finds all walks, each once (`mem_walks_iff`, `nodup_walks`). What is shown of
a walk has the names as its components, so two walks are never shown alike (`walkText_inj`).
-/

namespace StoreShell.Glob

open StoreShell.Path

/-- Whether a folder of a store has a child of a name, which is a folder itself if one is needed. -/
structure HasChild (s : Store) (folder name : String) (needFolder : Bool) : Prop where
  isFolder : ∃ o, s.get? folder = some o ∧ o.entry.isFolder
  named : IsName name
  child : ∃ o, s.get? (join folder name) = some o ∧ (needFolder → o.entry.isFolder)

/-- Whether names can take the place of the components of a pattern, from a path onwards. A literal
component behind a wildcard has to be there, unless it is one of the two dots. -/
inductive Walk (s : Store) (foldersOnly : Bool) :
    (behind : Bool) → (path : String) → (components names : List String) → Prop
  | done {behind path} : Walk s foldersOnly behind path [] []
  | literal {behind path component rest names} (plain : isPattern component = false)
    (stands : behind = true → component ≠ "." → component ≠ ".." →
      HasChild s path component (!rest.isEmpty || foldersOnly))
    (later : Walk s foldersOnly behind (resolve path component) rest names) :
    Walk s foldersOnly behind path (component :: rest) (component :: names)
  | pick {behind path component rest name names} (wild : isPattern component)
    (child : HasChild s path name (!rest.isEmpty || foldersOnly))
    (accepted : (Pattern.ofText component).accepts name)
    (later : Walk s foldersOnly true (join path name) rest names) :
    Walk s foldersOnly behind path (component :: rest) (name :: names)

variable {s : Store} {foldersOnly behind : Bool} {path folder name component : String}
  {components rest names : List String}

/-! ### Finding all walks -/

def childNames (s : Store) (folder : String) (needFolder : Bool) : List String :=
  (((s.list folder).toOption.getD []).filter fun e => !needFolder || e.isFolder).map Entry.name

/-- What is no folder has no children. -/
theorem childNames_of_not_isOk {needFolder : Bool} (refused : (s.list folder).isOk = false) :
    childNames s folder needFolder = [] := by
  rw [childNames]
  cases listed : s.list folder with
  | error failure => rfl
  | ok entries =>
    rw [listed] at refused
    cases refused

/-- Exactly the names of the children that are wanted are among them. -/
theorem mem_childNames_iff (sound : s.Sound) (normal : IsNormal folder) {needFolder : Bool} :
    name ∈ childNames s folder needFolder ↔ HasChild s folder name needFolder := by
  constructor
  · intro member
    obtain ⟨e, kept, rfl⟩ := List.mem_map.mp member
    obtain ⟨inside, wanted⟩ := List.mem_filter.mp kept
    cases listed : s.list folder with
    | error failure => simp [listed, Except.toOption] at inside
    | ok entries =>
      rw [listed] at inside
      have listing := Store.isListing_of_list sound normal listed
      obtain ⟨named, o, stored, rfl⟩ := (listing.mem e).mp inside
      refine ⟨listing.isFolder, named, o, stored, fun needed => ?_⟩
      simpa [needed] using wanted
  · rintro ⟨⟨top, found, folderly⟩, named, o, stored, wanted⟩
    obtain ⟨entries, listed, listing⟩ := Store.exists_isListing sound normal found folderly
    have called := sound.named stored
    rw [fileName_join normal named] at called
    refine List.mem_map.mpr ⟨o.entry, List.mem_filter.mpr ⟨?_, ?_⟩, called⟩
    · rw [listed]
      exact (listing.mem _).mpr (called.symm ▸ ⟨named, o, stored, rfl⟩)
    · cases needFolder with
      | false => rfl
      | true => simpa using wanted rfl

/-- A store lists no name twice. -/
theorem nodup_childNames (sound : s.Sound) (normal : IsNormal folder) (needFolder : Bool) :
    (childNames s folder needFolder).Nodup := by
  cases listed : s.list folder with
  | error failure => simp [childNames, listed, Except.toOption]
  | ok entries =>
    have distinct := (Store.isListing_of_list sound normal listed).distinct
    rw [childNames, listed]
    exact List.pairwise_map.mpr (distinct.filter _)

/-- Whether the walk may go on to a literal component. -/
def mayFollow (s : Store) (behind : Bool) (path component : String) (needFolder : Bool) : Bool :=
  !behind || component = "." || component = ".." || component ∈ childNames s path needFolder

/-- The names of all walks along the components of a pattern. -/
def walks (s : Store) (foldersOnly : Bool) : Bool → String → List String → List (List String)
  | _, _, [] => [[]]
  | behind, path, component :: rest =>
    let needFolder := !rest.isEmpty || foldersOnly
    if isPattern component then
      ((childNames s path needFolder).filter (Pattern.ofText component).accepts).flatMap fun name =>
        (walks s foldersOnly true (join path name) rest).map (name :: ·)
    else if mayFollow s behind path component needFolder then
      (walks s foldersOnly behind (resolve path component) rest).map (component :: ·)
    else []

theorem mayFollow_iff (sound : s.Sound) (normal : IsNormal path) {needFolder : Bool} :
    mayFollow s behind path component needFolder ↔
      (behind → component ≠ "." → component ≠ ".." → HasChild s path component needFolder) := by
  cases behind with
  | false => simp [mayFollow]
  | true =>
    simp only [mayFollow, Bool.not_true, Bool.false_or, Bool.or_eq_true, decide_eq_true_eq,
      mem_childNames_iff sound normal, forall_const]
    tauto

/-- The walks that are computed are the walks there are. -/
theorem mem_walks_iff (sound : s.Sound) (normal : IsNormal path) :
    names ∈ walks s foldersOnly behind path components ↔
      Walk s foldersOnly behind path components names := by
  induction components generalizing behind path names with
  | nil =>
    rw [walks, List.mem_singleton]
    constructor
    · rintro rfl
      exact .done
    · intro walk
      cases walk
      rfl
  | cons component rest ih =>
    rw [walks]
    split
    · next wild =>
      simp only [List.mem_flatMap, List.mem_filter, mem_childNames_iff sound normal, List.mem_map]
      constructor
      · rintro ⟨name, ⟨child, accepted⟩, later, walk, rfl⟩
        exact .pick wild child accepted ((ih (normal.join child.named)).mp walk)
      · intro walk
        cases walk with
        | literal plain => rw [wild] at plain; cases plain
        | pick _ child accepted later =>
          exact ⟨_, ⟨child, accepted⟩, _, (ih (normal.join child.named)).mpr later, rfl⟩
    · next plain =>
      split
      · next follows =>
        rw [List.mem_map]
        constructor
        · rintro ⟨later, walk, rfl⟩
          exact .literal (Bool.eq_false_iff.mpr plain) ((mayFollow_iff sound normal).mp follows)
            ((ih (isNormal_resolve _ _)).mp walk)
        · intro walk
          cases walk with
          | pick wild => exact absurd wild plain
          | literal _ _ later => exact ⟨_, (ih (isNormal_resolve _ _)).mpr later, rfl⟩
      · next stops =>
        refine iff_of_false List.not_mem_nil fun walk => ?_
        cases walk with
        | pick wild => exact absurd wild plain
        | literal _ stands => exact stops ((mayFollow_iff sound normal).mpr stands)

/-- No walk is found twice. -/
theorem nodup_walks (sound : s.Sound) (normal : IsNormal path) :
    (walks s foldersOnly behind path components).Nodup := by
  induction components generalizing behind path with
  | nil => exact List.nodup_singleton []
  | cons component rest ih =>
    have behindName : ∀ {behind path} (name : String), IsNormal path →
        ((walks s foldersOnly behind path rest).map (name :: ·)).Nodup :=
      fun name normal => (ih normal).map List.cons_injective
    rw [walks]
    split
    · rw [List.nodup_flatMap]
      constructor
      · intro name member
        have child := (mem_childNames_iff sound normal).mp (List.mem_filter.mp member).1
        exact behindName name (normal.join child.named)
      · refine ((nodup_childNames sound normal _).filter _).imp fun {name other} differ => ?_
        intro names one two
        obtain ⟨_, -, rfl⟩ := List.mem_map.mp one
        obtain ⟨_, -, same⟩ := List.mem_map.mp two
        exact differ (List.cons.inj same).1.symm
    · split
      · exact behindName component (isNormal_resolve _ _)
      · exact List.nodup_nil

/-- Whether names can take the place of the components of a pattern that is followed from the root,
if it begins with a slash, or from a folder. With a slash at its end it stands for folders only. -/
def IsWalk (s : Store) (cwd pattern : String) (names : List String) : Prop :=
  Walk s (pattern.toList.getLast? = some '/') false (if isAbsolute pattern then root else cwd)
    (patternComponents pattern) names

/-! ### What is shown of a walk -/

/-- Whether a text can stand between two slashes of what is shown. -/
def IsPiece (text : String) : Prop := text ≠ "" ∧ '/' ∉ text.toList

/-- What is shown does not end with a slash once a name stands there. -/
theorem IsPiece.getLast?_append (piece : IsPiece name) (before : List Char) :
    (before ++ name.toList).getLast? ≠ some '/' := by
  intro slash
  rw [List.getLast?_append_of_ne_nil _ (by simpa using piece.1)] at slash
  exact piece.2 (List.mem_of_getLast? slash)

theorem isPiece_of_isName (named : IsName name) : IsPiece name :=
  ⟨by simpa using named.1, named.2.1⟩

/-- The components of a pattern can stand between slashes. -/
theorem isPiece_of_mem_patternComponents {pattern : String}
    (member : component ∈ patternComponents pattern) : IsPiece component := by
  obtain ⟨c, kept, rfl⟩ := List.mem_map.mp member
  obtain ⟨inside, filled⟩ := List.mem_filter.mp kept
  refine ⟨by simpa using filled, ?_⟩
  rw [String.toList_ofList]
  exact slash_notMem_of_mem_components inside

/-- What a walk goes through can be shown between slashes. -/
theorem Walk.isPiece (walk : Walk s foldersOnly behind path components names)
    (pieces : ∀ component ∈ components, IsPiece component) : ∀ name ∈ names, IsPiece name := by
  induction walk with
  | done => exact nofun
  | literal _ _ _ ih =>
    obtain ⟨first, later⟩ := List.forall_mem_cons.mp pieces
    exact List.forall_mem_cons.mpr ⟨first, ih later⟩
  | pick _ child _ _ ih =>
    exact List.forall_mem_cons.mpr
      ⟨isPiece_of_isName child.named, ih (List.forall_mem_cons.mp pieces).2⟩

/-- A walk has one name for each component. -/
theorem Walk.length_eq (walk : Walk s foldersOnly behind path components names) :
    names.length = components.length := by
  induction walk with
  | done => rfl
  | literal _ _ _ ih | pick _ _ _ _ ih => rw [List.length_cons, List.length_cons, ih]

/-- What is shown of a walk: its names between slashes, with a slash in front and at the end where
the pattern has them. -/
def walkText (pattern : String) (names : List String) : String :=
  (if isAbsolute pattern then "/" else "") ++ "/".intercalate names ++
    (if pattern.toList.getLast? = some '/' then "/" else "")

/-- Two walks that are shown alike are the same. -/
theorem walkText_inj {pattern : String} {others : List String} (filled : names ≠ [])
    (filled' : others ≠ []) (pieces : ∀ name ∈ names, IsPiece name)
    (pieces' : ∀ name ∈ others, IsPiece name)
    (same : walkText pattern names = walkText pattern others) : names = others := by
  have joined : ['/'].intercalate (names.map String.toList) =
      ['/'].intercalate (others.map String.toList) := by
    simpa [walkText, ← String.toList_inj] using same
  have read : ∀ {names : List String}, names ≠ [] → (∀ name ∈ names, IsPiece name) →
      (['/'].intercalate (names.map String.toList)).splitOn '/' = names.map String.toList := by
    intro names filled pieces
    refine List.splitOn_intercalate '/' ?_ (by simpa using filled)
    intro piece member
    obtain ⟨name, among, rfl⟩ := List.mem_map.mp member
    exact (pieces name among).2
  have split := congrArg (List.splitOn '/') joined
  rw [read filled pieces, read filled' pieces'] at split
  exact List.map_injective_iff.mpr (fun _ _ => String.toList_inj.mp) split

private theorem foldl_showJoin {shown : String} (filled : shown ≠ "")
    (closed : shown.toList.getLast? ≠ some '/') (pieces : ∀ name ∈ names, IsPiece name) :
    names.foldl Candidate.showJoin shown = "/".intercalate (shown :: names) := by
  induction names generalizing shown with
  | nil => simp
  | cons name rest ih =>
    obtain ⟨piece, later⟩ := List.forall_mem_cons.mp pieces
    have step : Candidate.showJoin shown name = shown ++ "/" ++ name := by
      rw [Candidate.showJoin, if_neg (by simpa using filled), if_neg closed]
    have ends : (shown ++ "/" ++ name).toList.getLast? ≠ some '/' := by
      rw [String.toList_append]
      exact piece.getLast?_append _
    rw [List.foldl_cons, step, ih (by simp) ends later]
    cases rest with
    | nil => simp [String.intercalate_cons_cons, String.append_assoc]
    | cons next more => simp [String.intercalate_cons_cons, String.append_assoc]

/-- A pattern has a component. -/
theorem patternComponents_ne_nil {pattern : String} (wild : isPattern pattern) :
    patternComponents pattern ≠ [] := by
  obtain ⟨c, member, special⟩ := List.any_eq_true.mp wild
  have whole : pattern.toList = ['/'].intercalate (components pattern) :=
    (List.intercalate_splitOn '/').symm
  rw [whole] at member
  rcases of_mem_intercalate member with rfl | ⟨piece, among, inside⟩
  · simp at special
  · have kept : piece ∈ (components pattern).filter (!·.isEmpty) := by
      refine List.mem_filter.mpr ⟨among, ?_⟩
      simpa using List.ne_nil_of_mem inside
    rw [patternComponents]
    exact List.ne_nil_of_mem (List.mem_map_of_mem kept)

/-- What is shown once the names of a walk have been followed from the root or from the working
directory. -/
theorem foldl_showJoin_start (absolute : Bool) (filled : names ≠ [])
    (pieces : ∀ name ∈ names, IsPiece name) :
    names.foldl Candidate.showJoin (if absolute then root else "") =
      (if absolute then "/" else "") ++ "/".intercalate names := by
  obtain ⟨name, rest, rfl⟩ := List.exists_cons_of_ne_nil filled
  obtain ⟨piece, later⟩ := List.forall_mem_cons.mp pieces
  cases absolute with
  | false =>
    rw [List.foldl_cons, if_neg Bool.false_ne_true, if_neg Bool.false_ne_true, String.empty_append]
    exact foldl_showJoin piece.1 (piece.getLast?_append []) later
  | true =>
    rw [List.foldl_cons, if_pos rfl, if_pos rfl]
    have first : Candidate.showJoin root name = "/" ++ name := rfl
    rw [first, foldl_showJoin (by simp) (by simpa using piece.getLast?_append ['/']) later]
    cases rest with
    | nil => simp
    | cons next more => simp [String.intercalate_cons_cons, String.append_assoc]

end StoreShell.Glob
