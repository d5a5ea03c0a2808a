import StoreShell.Proofs.AgreeingCommands

/-! # Expansion agrees on twins

A pattern is followed through folders that one twin may know and the other has to list. Once a
folder is loaded both know the same of it, so both find the same candidates. Candidates lead to
normal paths, which is what makes loading their folders meaningful.
-/

namespace StoreShell.Glob

open StoreShell.Path

variable {cache remote : Nat} {site : Site}

/-- Twins that both know the children of a folder. -/
structure Loaded (cache remote : Nat) (folder : String) (w v : World) : Prop
    extends Twins cache remote (fun c => c) w v where
  leftLoaded : ((w.cacheAt cache).childNames? folder).isSome
  rightLoaded : ((v.cacheAt cache).childNames? folder).isSome

/-- What loading a folder ends with, as the store has it. -/
def loadResult (pattern folder : String) (store : Store) : Except Failure Bool :=
  match store.list folder with
  | .ok _ => .ok true
  | .error (.notADirectory _) => .ok false
  | .error failure =>
    if failure.isNotFound then .ok false else .error (.expansion pattern failure.message)

private theorem loadResult_of_file {w : World} (owes : w.Owes cache remote fun c => c)
    (pattern : String) {folder : String} (normal : IsNormal folder)
    (filed : ((w.cacheAt cache).get? folder).any fun e => !e.isFolder) :
    loadResult pattern folder (w.remoteAt remote).store = .ok false := by
  cases known : (w.cacheAt cache).get? folder with
  | none =>
    rw [known] at filed
    cases filed
  | some e =>
    rw [known, Option.any_some] at filed
    rw [Cache.get?_of_isNormal _ normal] at known
    obtain ⟨o, here, rfl⟩ := owes.mirrors.entry known
    have notListed : (w.remoteAt remote).store.list folder = .error (.notADirectory folder) := by
      simp only [Store.list, normalize_of_isNormal normal, here]
      exact if_neg (by simpa using filed)
    rw [loadResult, notListed]

/-- After loading a folder that the store has, both twins know it. -/
theorem agree_load (cacheIs : site.cache = cache) (remoteIs : site.remote = remote)
    (pattern : String) {folder : String} (normal : IsNormal folder) :
    Agree (Twins cache remote fun c => c) (load site pattern folder) fun a w v =>
      Twins cache remote (fun c => c) w v ∧
        (a = .ok true → ((w.cacheAt cache).childNames? folder).isSome) ∧
        (a = .ok true → ((v.cacheAt cache).childNames? folder).isSome) := by
  subst cacheIs remoteIs
  refine agree_looking_then (fun _ store => loadResult pattern folder store)
    (fun a w => a = .ok true → ((w.cacheAt site.cache).childNames? folder).isSome) ?_
  intro w owes
  rw [load, Script.settle?_andThen (settle?_known w site.cache folder)]
  by_cases filed : ((w.cacheAt site.cache).get? folder).any fun e => !e.isFolder
  · rw [if_pos filed, loadResult_of_file owes pattern normal filed]
    exact ⟨w, rfl, owes.lookedFrom, nofun⟩
  · rw [if_neg filed]
    obtain ⟨w', settles, looked, known⟩ := owes.ensureChildren folder
    rw [normalize_of_isNormal normal] at known
    refine ⟨w', (Script.settle?_andThen (Script.settle?_attempt settles)).trans ?_, looked, ?_⟩
    · rw [loadResult]
      cases (w.remoteAt site.remote).store.list folder with
      | ok entries => rfl
      | error failure =>
        cases failure with
        | notADirectory path => rfl
        | _ =>
          dsimp only
          split <;> rfl
    · intro loaded
      rw [loadResult] at loaded
      cases listed : (w.remoteAt site.remote).store.list folder with
      | ok entries => exact known entries listed
      | error failure =>
        rw [listed] at loaded
        cases failure with
        | notADirectory path => cases loaded
        | _ =>
          dsimp only at loaded
          split at loaded <;> cases loaded

/-- Goes on after loading a folder, with both twins knowing it or without. -/
theorem agree_load_then {α : Type} {k : Bool → Task α}
    {post : Except Failure α → World → World → Prop} (cacheIs : site.cache = cache)
    (remoteIs : site.remote = remote) (pattern : String) {folder : String}
    (normal : IsNormal folder) (known : Agree (Loaded cache remote folder) (k true) post)
    (unknown : Agree (Twins cache remote fun c => c) (k false) post)
    (fails : ∀ failure w v, Twins cache remote (fun c => c) w v → post (.error failure) w v) :
    Agree (Twins cache remote fun c => c) (load site pattern folder >>= k : Task α) post := by
  refine (agree_load cacheIs remoteIs pattern normal).andThen (fun loaded => ?_)
    fun failure w v after => fails failure w v after.1
  cases loaded with
  | true =>
    refine known.mono ?_ fun _ _ _ => id
    exact fun w v after => ⟨after.1, after.2.1 rfl, after.2.2 rfl⟩
  | false =>
    refine unknown.mono ?_ fun _ _ _ => id
    exact fun w v after => after.1

section Loaded

variable {folder : String}

/-- Of a loaded folder both caches know the same children. -/
theorem agree_known (normal : IsNormal folder) {name : String} (named : IsName name) :
    Agree (Loaded cache remote folder) (Task.ask (.known cache (join folder name)))
      fun a w v => ∃ b, a = .ok b ∧ Loaded cache remote folder w v := by
  refine Agree.ask fun w v loaded => ⟨?_, loaded⟩
  obtain ⟨names, left⟩ := Option.isSome_iff_exists.mp loaded.leftLoaded
  obtain ⟨names', right⟩ := Option.isSome_iff_exists.mp loaded.rightLoaded
  change (w.cacheAt cache).get? _ = (v.cacheAt cache).get? _
  rw [Cache.get?_of_isNormal _ (normal.join named), Cache.get?_of_isNormal _ (normal.join named),
    loaded.left.mirrors.entryAt?_join left named, loaded.right.mirrors.entryAt?_join right named,
    loaded.store]

/-- The children of a listed folder that belong to a pattern come in the order of their names. -/
theorem matching_eq {c : Cache} {names : Std.TreeSet String} (normal : IsNormal folder)
    (listed : c.childNames? folder = some names) (pattern : String) :
    c.matching folder pattern =
      (names.toList.filter (Pattern.ofText pattern).accepts).map (join folder) := by
  simp only [Cache.matching, normalize_of_isNormal normal, listed]

/-- Of a loaded folder both caches offer the same children for a wildcard component. -/
theorem agree_matching (normal : IsNormal folder) (pattern : String) :
    Agree (Loaded cache remote folder) (Task.ask (.matching cache folder pattern))
      fun a w v => ∃ paths, a = .ok paths ∧
        (∀ path ∈ paths, ∃ name, IsName name ∧ path = join folder name) ∧
          Loaded cache remote folder w v := by
  refine Agree.ask fun w v loaded => ?_
  obtain ⟨names, left⟩ := Option.isSome_iff_exists.mp loaded.leftLoaded
  obtain ⟨names', right⟩ := Option.isSome_iff_exists.mp loaded.rightLoaded
  have mirrors := loaded.left.mirrors
  obtain ⟨o, found, folderly⟩ := mirrors.folder left
  obtain ⟨entries, -, listing⟩ := Store.exists_isListing loaded.left.sound normal found folderly
  have order := mirrors.toList_names loaded.left.sound normal left listing
  have order' := loaded.right.mirrors.toList_names loaded.right.sound normal right
    (loaded.store ▸ listing)
  change (w.cacheAt cache).matching folder pattern = (v.cacheAt cache).matching folder pattern ∧
    (∀ path ∈ (w.cacheAt cache).matching folder pattern, _) ∧ _
  rw [matching_eq normal left, matching_eq normal right, order, order']
  refine ⟨rfl, fun path member => ?_, loaded⟩
  obtain ⟨name, accepted, rfl⟩ := List.mem_map.mp member
  have inside := (List.mem_filter.mp accepted).1
  exact ⟨name, ((listing.mem_names loaded.left.sound normal name).mp inside).1, rfl⟩

/-- The candidates that are kept lead where they led before. -/
theorem agree_keepFolders (cacheIs : site.cache = cache) (normal : IsNormal folder)
    (needFolder : Bool) {candidates : List Candidate}
    (inside : ∀ c ∈ candidates, ∃ name, IsName name ∧ c.path = join folder name) :
    Agree (Loaded cache remote folder) (keepFolders site needFolder candidates) fun a w v =>
      ∃ kept, a = .ok kept ∧ (∀ c ∈ kept, IsNormal c.path) ∧ Loaded cache remote folder w v := by
  subst cacheIs
  induction candidates with
  | nil => exact Agree.done fun w v loaded => ⟨[], rfl, nofun, loaded⟩
  | cons c rest ih =>
    obtain ⟨name, named, place⟩ := inside c (List.mem_cons_self ..)
    have later := ih fun d member => inside d (List.mem_cons_of_mem _ member)
    have here : IsNormal c.path := place ▸ normal.join named
    have goesOn : ∀ known : Option Entry, Agree (Loaded site.cache remote folder) (do
        let rest ← keepFolders site needFolder rest
        return if needFolder && !known.any Entry.isFolder then rest else c :: rest :
          Task (List Candidate)) fun a w v => ∃ kept, a = .ok kept ∧
            (∀ c ∈ kept, IsNormal c.path) ∧ Loaded site.cache remote folder w v := by
      refine fun known => later.okThen fun kept => ?_
      split
      · exact Agree.done fun w v after => ⟨kept, rfl, after⟩
      · refine Agree.done fun w v after => ⟨c :: kept, rfl, ?_, after.2⟩
        intro d member
        rcases List.mem_cons.mp member with rfl | member
        · exact here
        · exact after.1 d member
    rw [keepFolders]
    split
    · rw [place]
      exact (agree_known normal named).okThen goesOn
    · exact goesOn none

end Loaded

/-- Whether a component of a pattern leads anywhere: it is a name, or one of the two dots. -/
def IsStep (component : String) : Prop :=
  IsName component ∨ component = "." ∨ component = ".."

/-- Whether a child is there comes out alike, be it told by the cache or by the store. -/
theorem settled_exists? (cacheIs : site.cache = cache) (remoteIs : site.remote = remote)
    (pattern : String) {folder name : String} (normal : IsNormal folder) (step : IsStep name)
    (needFolder : Bool) :
    Settled cache remote (exists? site pattern folder name needFolder) := by
  rw [exists?]
  split
  · exact settled_pure true
  · next notDots =>
    have named : IsName name := by
      rcases step with named | rfl | rfl
      · exact named
      · exact absurd rfl notDots
      · exact absurd rfl notDots
    refine agree_load_then cacheIs remoteIs pattern normal ?_ ?_ fun _ _ _ => id
    · subst cacheIs
      refine (agree_known normal named).okThen fun known => ?_
      cases known with
      | none => exact Agree.done fun _ _ loaded => loaded.toTwins
      | some e => exact Agree.done fun _ _ loaded => loaded.toTwins
    · exact settled_pure false

/-- Candidates that lead to normal paths. -/
def Lead (candidates : List Candidate) : Prop := ∀ c ∈ candidates, IsNormal c.path

theorem lead_nil : Lead [] := nofun

theorem lead_cons {c : Candidate} {rest : List Candidate} :
    Lead (c :: rest) ↔ IsNormal c.path ∧ Lead rest :=
  List.forall_mem_cons

theorem lead_append {first second : List Candidate} (lead : Lead first) (lead' : Lead second) :
    Lead (first ++ second) := by
  intro c member
  rcases List.mem_append.mp member with member | member
  · exact lead c member
  · exact lead' c member

section Follow

variable (cacheIs : site.cache = cache) (remoteIs : site.remote = remote) (pattern : String)
include cacheIs remoteIs

/-- Following a literal component keeps candidates on normal paths. -/
theorem settled_followLiteral {name : String} (step : IsStep name) (needFolder mustExist : Bool)
    {candidates : List Candidate} (lead : Lead candidates) :
    SettledTo cache remote Lead
      (followLiteral site pattern name needFolder mustExist candidates) := by
  induction candidates with
  | nil => exact settledTo_pure lead_nil
  | cons c rest ih =>
    obtain ⟨normal, behind⟩ := lead_cons.mp lead
    have goesOn : ∀ goesOn : Bool, SettledTo cache remote Lead (do
        let rest ← followLiteral site pattern name needFolder mustExist rest
        return if goesOn then
          ⟨Candidate.showJoin c.shown name, Path.resolve c.path name⟩ :: rest else rest :
            Task (List Candidate)) := by
      refine fun goesOn => (ih behind).andThen fun rest later => settledTo_pure ?_
      split
      · exact lead_cons.mpr ⟨isNormal_resolve _ _, later⟩
      · exact later
    rw [followLiteral]
    split
    · exact (settled_exists? cacheIs remoteIs pattern normal step needFolder).settledTo.andThen
        fun known _ => goesOn known
    · exact goesOn true

/-- Following a wildcard component keeps candidates on normal paths, since caches name children
properly. -/
theorem settled_followPattern (component : String) (needFolder : Bool)
    {candidates : List Candidate} (lead : Lead candidates) :
    SettledTo cache remote Lead (followPattern site pattern component needFolder candidates) := by
  induction candidates with
  | nil => exact settledTo_pure lead_nil
  | cons c rest ih =>
    obtain ⟨normal, behind⟩ := lead_cons.mp lead
    have goesOn : ∀ found : List Candidate, Lead found → SettledTo cache remote Lead (do
        return found ++ (← followPattern site pattern component needFolder rest) :
          Task (List Candidate)) :=
      fun found here => (ih behind).andThen fun rest later => settledTo_pure (lead_append here later)
    rw [followPattern]
    refine agree_load_then cacheIs remoteIs pattern normal ?_ (goesOn [] lead_nil)
      fun _ _ _ twins => ⟨nofun, twins⟩
    subst cacheIs
    refine (agree_matching normal component).okThen fun paths => ?_
    intro w v after
    refine Agree.okThen (agree_keepFolders rfl normal needFolder ?_) (fun found => ?_) w v after.2
    · intro d member
      obtain ⟨path, inside, rfl⟩ := List.mem_map.mp member
      exact after.1 path inside
    · intro w v after
      exact goesOn found after.1 w v after.2.toTwins

/-- By induction on the components, with candidates on normal paths as the invariant. -/
theorem settled_followAll (foldersOnly afterPattern : Bool) {components : List String}
    (steps : ∀ component ∈ components, IsStep component) {candidates : List Candidate}
    (lead : Lead candidates) : SettledTo cache remote Lead
      (followAll site pattern foldersOnly afterPattern components candidates) := by
  induction components generalizing candidates afterPattern with
  | nil => exact settledTo_pure lead
  | cons component rest ih =>
    have goesOn : ∀ next : List Candidate, Lead next → SettledTo cache remote Lead (do
        if next.isEmpty then return []
        followAll site pattern foldersOnly (afterPattern || isPattern component) rest next :
          Task (List Candidate)) := by
      intro next here
      split
      · exact settledTo_pure lead_nil
      · exact ih _ (fun other member => steps other (List.mem_cons_of_mem _ member)) here
    rw [followAll]
    split
    · exact (settled_followPattern cacheIs remoteIs pattern component _ lead).andThen goesOn
    · exact (settled_followLiteral cacheIs remoteIs pattern
        (steps component (List.mem_cons_self ..)) _ _ lead).andThen goesOn

omit cacheIs remoteIs in
theorem isStep_of_mem_patternComponents {component : String}
    (member : component ∈ patternComponents pattern) : IsStep component := by
  obtain ⟨c, kept, rfl⟩ := List.mem_map.mp member
  obtain ⟨piece, filled⟩ := List.mem_filter.mp kept
  have clear := slash_notMem_of_mem_components piece
  by_cases dot : c = ['.']
  · exact Or.inr (Or.inl (congrArg String.ofList dot))
  · by_cases dots : c = ['.', '.']
    · exact Or.inr (Or.inr (congrArg String.ofList dots))
    · refine Or.inl ?_
      rw [IsName, String.toList_ofList]
      exact ⟨by simpa using filled, clear, dot, dots⟩

/-- A pattern expands to the same paths in both worlds. -/
theorem settled_expandPattern : Settled cache remote (expandPattern site pattern) := by
  rw [expandPattern]
  refine (settled_followAll cacheIs remoteIs pattern _ _
    (fun _ => isStep_of_mem_patternComponents pattern) ?_).settled.andThen fun found =>
      settled_pure _
  refine lead_cons.mpr ⟨?_, lead_nil⟩
  split
  · exact isNormal_root
  · exact isNormal_normalize _

omit pattern in
/-- All arguments of a command come out alike. -/
theorem settled_expand (words : List Word) : Settled cache remote (expand site words) := by
  induction words with
  | nil => exact settled_pure []
  | cons word rest ih =>
    rw [expand]
    split
    · exact (settled_expandPattern cacheIs remoteIs word.text).andThen fun found =>
        ih.andThen fun rest => settled_pure _
    · exact ih.andThen fun rest => settled_pure _

end Follow

end StoreShell.Glob
