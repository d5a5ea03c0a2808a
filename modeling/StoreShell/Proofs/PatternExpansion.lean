import StoreShell.Proofs.AgreeingExpansion
import StoreShell.Proofs.Browsing
import StoreShell.Proofs.PatternWalks
import StoreShell.Proofs.PipelineSetup

/-! # Expansion finds the walks along a pattern

Expansion follows a pattern component by component with all candidates abreast, through a cache that
is filled as it goes. In a calm world each step takes a candidate to what the store has there,
whatever the cache knew before, so all steps together find the walks from the first candidate
(`finds_followAll`). `expand_pattern` says so of an argument as a whole.
-/

namespace StoreShell.Glob

open StoreShell.Path

variable {site : Site} {s : Store} {w : World} {folder name : String} {needFolder : Bool}

/-! ### Folders -/

/-- A store fails to list only what is missing or no folder. -/
theorem list_cases (s : Store) (folder : String) :
    (∃ entries, s.list folder = .ok entries) ∨ (∃ path, s.list folder = .error (.notFound path)) ∨
      ∃ path, s.list folder = .error (.notADirectory path) := by
  rw [Store.list]
  dsimp only
  split
  · exact Or.inr (Or.inl ⟨_, rfl⟩)
  · split
    · exact Or.inl ⟨_, rfl⟩
    · exact Or.inr (Or.inr ⟨_, rfl⟩)

/-- Loading a folder tells whether the store has it, and the cache knows it then. -/
theorem finds_load (calm : w.Calm site.cache site.remote s) (pattern : String)
    (normal : IsNormal folder) :
    ∃ w', (load site pattern folder).Finds w (s.list folder).isOk w' ∧
      w'.Calm site.cache site.remote s ∧ ((s.list folder).isOk →
        ((w'.cacheAt site.cache).childNames? folder).isSome) := by
  have looks := Task.finds_ask (.known site.cache folder) w
  by_cases filed : ((w.cacheAt site.cache).get? folder).any fun e => !e.isFolder
  · have refused : (s.list folder).isOk = false := by
      rw [Cache.get?_of_isNormal _ normal] at filed
      obtain ⟨e, known, noFolder⟩ := (Option.any_eq_true _ _).mp filed
      obtain ⟨o, here, rfl⟩ := calm.mirrors.entry known
      simp only [Store.list, normalize_of_isNormal normal, here]
      rw [if_neg (by simpa using noFolder)]
      rfl
    refine ⟨w, looks.andThen ?_, calm, fun listed => ?_⟩
    · change Task.Finds (if ((w.cacheAt site.cache).get? folder).any fun e => !e.isFolder then _
        else _) _ _ _
      rw [if_pos filed, refused]
      exact Task.finds_pure false w
    · rw [refused] at listed
      cases listed
  · obtain ⟨w', ensures, calm', known⟩ := calm.ensureChildren folder
    rw [normalize_of_isNormal normal] at known
    refine ⟨w', looks.andThen ?_, calm', known⟩
    change Task.Finds (if ((w.cacheAt site.cache).get? folder).any fun e => !e.isFolder then _
      else _) _ _ _
    rw [if_neg filed]
    refine ensures.andThen ?_
    rcases list_cases s folder with ⟨entries, done⟩ | ⟨path, done⟩ | ⟨path, done⟩ <;> rw [done]
    · exact Task.finds_pure true w'
    · exact Task.finds_pure false w'
    · exact Task.finds_pure false w'

/-! ### Wildcards -/

/-- The candidates that are kept, with nothing but a look at the cache. -/
theorem tells_keepFolders (w : World) (needFolder : Bool) (candidates : List Candidate) :
    (keepFolders site needFolder candidates).Tells w (candidates.filter fun c =>
      !needFolder || ((w.cacheAt site.cache).get? c.path).any Entry.isFolder) := by
  induction candidates with
  | nil => exact Task.tells_pure [] w
  | cons c rest ih =>
    rw [keepFolders, List.filter_cons]
    cases needFolder with
    | false => exact (Task.tells_pure none w).andThen (ih.andThen (Task.tells_pure _ w))
    | true =>
      refine (Task.tells_ask (r := .known site.cache c.path) rfl).andThen (ih.andThen ?_)
      change Task.Tells (pure (if true && !((w.cacheAt site.cache).get? c.path).any Entry.isFolder
        then _ else _)) _ _
      cases ((w.cacheAt site.cache).get? c.path).any Entry.isFolder with
      | false => exact Task.tells_pure _ w
      | true => exact Task.tells_pure _ w

/-- Where a wildcard component takes a candidate that has such children. -/
def picksAmong (children : List Entry) (component : String) (needFolder : Bool) (c : Candidate) :
    List Candidate :=
  (children.filter fun e =>
    (Pattern.ofText component).accepts e.name && (!needFolder || e.isFolder)).map fun e =>
      ⟨Candidate.showJoin c.shown e.name, join c.path e.name⟩

/-- Where a wildcard component takes a candidate. -/
def picks (s : Store) (component : String) (needFolder : Bool) (c : Candidate) : List Candidate :=
  ((childNames s c.path needFolder).filter (Pattern.ofText component).accepts).map fun name =>
    ⟨Candidate.showJoin c.shown name, join c.path name⟩

/-- What is left of the paths that a cache tells for a wildcard component are the children that the
component takes the candidate to. -/
theorem filter_matching {cache : Cache} {children : List Entry} {names : Std.TreeSet String}
    {c : Candidate} (component : String) (normal : IsNormal c.path)
    (listed : cache.childNames? c.path = some names) (same : children.map Entry.name = names.toList)
    (known : ∀ e ∈ children, IsName e.name ∧ cache.get? (join c.path e.name) = some e) :
    ((cache.matching c.path component).map fun path =>
      (⟨Candidate.showJoin c.shown (fileName path), path⟩ : Candidate)).filter (fun d =>
        !needFolder || (cache.get? d.path).any Entry.isFolder) =
      picksAmong children component needFolder c := by
  rw [matching_eq normal listed, ← same, picksAmong]
  simp only [List.map_map, List.filter_map, List.filter_filter]
  have kept : children.filter (fun e => (!needFolder ||
      (cache.get? (join c.path e.name)).any Entry.isFolder) &&
        (Pattern.ofText component).accepts e.name) =
      children.filter fun e =>
        (Pattern.ofText component).accepts e.name && (!needFolder || e.isFolder) := by
    refine List.filter_congr fun e member => ?_
    rw [(known e member).2, Option.any_some, Bool.and_comm]
  refine (congrArg _ kept).trans (List.map_congr_left fun e member => ?_)
  have named := (known e (List.mem_filter.mp member).1).1
  simp only [Function.comp_apply, fileName_join normal named]

/-- What a cache tells of a loaded folder is what the store has there. -/
theorem filter_matching_of_calm (calm : w.Calm site.cache site.remote s)
    (component : String) {c : Candidate} (normal : IsNormal c.path)
    (loaded : ((w.cacheAt site.cache).childNames? c.path).isSome) :
    (((w.cacheAt site.cache).matching c.path component).map fun path =>
      (⟨Candidate.showJoin c.shown (fileName path), path⟩ : Candidate)).filter (fun d =>
        !needFolder || ((w.cacheAt site.cache).get? d.path).any Entry.isFolder) =
      picks s component needFolder c := by
  obtain ⟨names, listed⟩ := Option.isSome_iff_exists.mp loaded
  obtain ⟨o, found, folderly⟩ := calm.mirrors.folder listed
  obtain ⟨entries, lists, listing⟩ := Store.exists_isListing calm.sound normal found folderly
  have known : ∀ e ∈ entries,
      IsName e.name ∧ (w.cacheAt site.cache).get? (join c.path e.name) = some e := by
    intro e member
    obtain ⟨named, o, stored, same⟩ := (listing.mem e).mp member
    rw [Cache.get?_of_isNormal _ (normal.join named), calm.mirrors.entryAt?_join listed named,
      stored, Option.map_some, same]
    exact ⟨named, rfl⟩
  rw [filter_matching component normal listed
    (calm.mirrors.toList_names calm.sound normal listed listing).symm known, picks, picksAmong,
    childNames, lists]
  simp only [Except.toOption, Option.getD_some, List.map_map, List.filter_map, List.filter_filter]
  rfl

/-- A wildcard component takes the candidates to the children of their folders that it accepts. -/
theorem finds_followPattern (calm : w.Calm site.cache site.remote s) (pattern component : String)
    (needFolder : Bool) {candidates : List Candidate} (lead : Lead candidates) :
    ∃ w', (followPattern site pattern component needFolder candidates).Finds w
        (candidates.flatMap (picks s component needFolder)) w' ∧
      w'.Calm site.cache site.remote s := by
  induction candidates generalizing w with
  | nil => exact ⟨w, Task.finds_pure [] w, calm⟩
  | cons c rest ih =>
    obtain ⟨normal, behind⟩ := lead_cons.mp lead
    obtain ⟨w₁, loads, calm₁, known⟩ := finds_load calm pattern normal
    obtain ⟨w₂, later, calm₂⟩ := ih calm₁ behind
    refine ⟨w₂, ?_, calm₂⟩
    rw [followPattern, List.flatMap_cons]
    have goesOn : ∀ here : List Candidate, (do
        return here ++ (← followPattern site pattern component needFolder rest) :
          Task (List Candidate)).Finds w₁ (here ++ rest.flatMap (picks s component needFolder)) w₂ :=
      fun here => later.andThen (Task.finds_pure _ w₂)
    refine loads.andThen ?_
    cases listed : (s.list c.path).isOk with
    | false =>
      have none : picks s component needFolder c = [] := by
        rw [picks, childNames_of_not_isOk listed]
        rfl
      rw [if_neg Bool.false_ne_true, none]
      exact (Task.finds_pure [] w₁).andThen (goesOn [])
    | true =>
      have here : (keepFolders site needFolder
          (((w₁.cacheAt site.cache).matching c.path component).map fun path =>
            ⟨Candidate.showJoin c.shown (fileName path), path⟩)).Finds w₁ _ w₁ :=
        (tells_keepFolders w₁ needFolder _).finds
      rw [filter_matching_of_calm calm₁ component normal (known listed)] at here
      rw [if_pos rfl]
      exact (Task.finds_ask _ w₁).andThen (here.andThen (goesOn _))

/-! ### Literal components -/

/-- Where a literal component takes a candidate. -/
def moves (s : Store) (behind : Bool) (name : String) (needFolder : Bool) (c : Candidate) :
    List Candidate :=
  if mayFollow s behind c.path name needFolder then
    [⟨Candidate.showJoin c.shown name, resolve c.path name⟩]
  else []

/-- A literal component behind a wildcard is followed if the store has it. -/
theorem finds_exists? (calm : w.Calm site.cache site.remote s) (pattern : String)
    (normal : IsNormal folder) (step : IsStep name) :
    ∃ w', (exists? site pattern folder name needFolder).Finds w
        (mayFollow s true folder name needFolder) w' ∧ w'.Calm site.cache site.remote s := by
  rw [exists?]
  split
  · next dots =>
    have follows : mayFollow s true folder name needFolder = true := by
      rw [mayFollow]
      simpa using Or.inl dots
    rw [follows]
    exact ⟨w, Task.finds_pure true w, calm⟩
  · next notDots =>
    have named : IsName name := by
      rcases step with named | rfl | rfl
      · exact named
      · exact absurd rfl notDots
      · exact absurd rfl notDots
    obtain ⟨w', loads, calm', known⟩ := finds_load calm pattern normal
    refine ⟨w', loads.andThen ?_, calm'⟩
    have wanted : mayFollow s true folder name needFolder =
        decide (name ∈ childNames s folder needFolder) := by
      simp only [Bool.or_eq_true, decide_eq_true_eq, not_or] at notDots
      simp [mayFollow, notDots]
    rw [wanted]
    cases listed : (s.list folder).isOk with
    | false =>
      rw [childNames_of_not_isOk listed]
      exact Task.finds_pure false w'
    | true =>
      obtain ⟨names, loaded⟩ := Option.isSome_iff_exists.mp (known listed)
      have looks : (Task.ask (.known site.cache (join folder name))).Finds w'
          ((s.get? (join folder name)).map StoredObject.entry) w' := by
        rw [← calm'.mirrors.entryAt?_join loaded named, ← Cache.get?_of_isNormal _ (normal.join named)]
        exact Task.finds_ask _ w'
      cases stored : s.get? (join folder name) with
      | none =>
        have missing : name ∉ childNames s folder needFolder := by
          rw [mem_childNames_iff calm.sound normal]
          rintro ⟨-, -, o, here, -⟩
          rw [stored] at here
          cases here
        rw [stored] at looks
        rw [decide_eq_false missing]
        exact looks.andThen (Task.finds_pure false w')
      | some o =>
        have wanted : name ∈ childNames s folder needFolder ↔ (needFolder → o.entry.isFolder) := by
          rw [mem_childNames_iff calm.sound normal]
          constructor
          · rintro ⟨-, -, o', here, wanted⟩
            rw [stored] at here
            cases here
            exact wanted
          · exact fun wanted => ⟨calm'.mirrors.folder loaded, named, o, stored, wanted⟩
        have same : decide (name ∈ childNames s folder needFolder) =
            (!needFolder || o.entry.isFolder) := by
          rw [Bool.eq_iff_iff, decide_eq_true_eq, wanted]
          simp [imp_iff_not_or]
        rw [stored] at looks
        rw [same]
        exact looks.andThen (Task.finds_pure _ w')

/-- A literal component takes the candidates to where they may go on. -/
theorem finds_followLiteral (calm : w.Calm site.cache site.remote s) (pattern : String)
    (step : IsStep name) (needFolder mustExist : Bool) {candidates : List Candidate}
    (lead : Lead candidates) :
    ∃ w', (followLiteral site pattern name needFolder mustExist candidates).Finds w
        (candidates.flatMap (moves s mustExist name needFolder)) w' ∧
      w'.Calm site.cache site.remote s := by
  induction candidates generalizing w with
  | nil => exact ⟨w, Task.finds_pure [] w, calm⟩
  | cons c rest ih =>
    obtain ⟨normal, behind⟩ := lead_cons.mp lead
    have first : ∃ w₁, (if mustExist then exists? site pattern c.path name needFolder
        else pure true : Task Bool).Finds w (mayFollow s mustExist c.path name needFolder) w₁ ∧
          w₁.Calm site.cache site.remote s := by
      cases mustExist with
      | false => exact ⟨w, Task.finds_pure true w, calm⟩
      | true => exact finds_exists? calm pattern normal step
    obtain ⟨w₁, first, calm₁⟩ := first
    obtain ⟨w₂, later, calm₂⟩ := ih calm₁ behind
    refine ⟨w₂, ?_, calm₂⟩
    have goesOn : ∀ goesOn : Bool, (do
        let rest ← followLiteral site pattern name needFolder mustExist rest
        return if goesOn then
          ⟨Candidate.showJoin c.shown name, resolve c.path name⟩ :: rest else rest :
            Task (List Candidate)).Finds w₁
          ((if goesOn then [⟨Candidate.showJoin c.shown name, resolve c.path name⟩] else []) ++
            rest.flatMap (moves s mustExist name needFolder)) w₂ := by
      intro goesOn
      cases goesOn with
      | false => exact later.andThen (Task.finds_pure _ w₂)
      | true => exact later.andThen (Task.finds_pure _ w₂)
    rw [followLiteral, List.flatMap_cons, moves]
    cases mustExist with
    | false => exact first.andThen (goesOn _)
    | true => exact first.andThen (goesOn _)

/-! ### All components -/

section Trails

variable {foldersOnly behind : Bool} {component : String} {rest : List String} {c : Candidate}

/-- What is shown of the walks that go on from a candidate. -/
def shownFrom (s : Store) (foldersOnly behind : Bool) (components : List String) (c : Candidate) :
    List String :=
  (walks s foldersOnly behind c.path components).map fun names =>
    names.foldl Candidate.showJoin c.shown

/-- The children that a wildcard component picks are on normal paths. -/
theorem lead_picks (sound : s.Sound) (normal : IsNormal c.path) :
    Lead (picks s component needFolder c) := by
  intro d member
  obtain ⟨name, kept, rfl⟩ := List.mem_map.mp member
  have child := (mem_childNames_iff sound normal).mp (List.mem_filter.mp kept).1
  exact normal.join child.named

/-- A literal component leads from normal paths to normal paths. -/
theorem lead_moves : Lead (moves s behind name needFolder c) := by
  rw [moves]
  split
  · exact lead_cons.mpr ⟨isNormal_resolve _ _, lead_nil⟩
  · exact lead_nil

/-- A walk that begins with a wildcard goes on from one of the children that it accepts. -/
theorem flatMap_picks (wild : isPattern component) :
    (picks s component (!rest.isEmpty || foldersOnly) c).flatMap (shownFrom s foldersOnly true rest) =
      shownFrom s foldersOnly behind (component :: rest) c := by
  rw [shownFrom, walks, if_pos wild, picks, List.map_flatMap, List.flatMap_map]
  refine List.flatMap_congr fun name _ => ?_
  rw [shownFrom, List.map_map]
  rfl

/-- A walk that begins with a literal component goes on from there if it may. -/
theorem flatMap_moves (plain : ¬ isPattern component) :
    (moves s behind component (!rest.isEmpty || foldersOnly) c).flatMap
        (shownFrom s foldersOnly behind rest) =
      shownFrom s foldersOnly behind (component :: rest) c := by
  rw [shownFrom, walks, if_neg plain, moves]
  split
  · rw [List.flatMap_singleton, shownFrom, List.map_map]
    rfl
  · rfl

end Trails

/-- Following the components takes the candidates along all walks. -/
theorem finds_followAll (calm : w.Calm site.cache site.remote s) (pattern : String)
    (foldersOnly behind : Bool) {components : List String}
    (steps : ∀ component ∈ components, IsStep component) {candidates : List Candidate}
    (lead : Lead candidates) :
    ∃ found w', (followAll site pattern foldersOnly behind components candidates).Finds w found w' ∧
      w'.Calm site.cache site.remote s ∧
      found.map Candidate.shown = candidates.flatMap (shownFrom s foldersOnly behind components) := by
  induction components generalizing w behind candidates with
  | nil =>
    exact ⟨candidates, w, Task.finds_pure candidates w, calm, List.map_eq_flatMap⟩
  | cons component rest ih =>
    have later := fun other member => steps other (List.mem_cons_of_mem _ member)
    have goesOn : ∀ {w : World}, w.Calm site.cache site.remote s → ∀ {next}, Lead next →
        ∃ found w', (do
          if next.isEmpty then return []
          followAll site pattern foldersOnly (behind || isPattern component) rest next :
            Task (List Candidate)).Finds w found w' ∧ w'.Calm site.cache site.remote s ∧
          found.map Candidate.shown =
            next.flatMap (shownFrom s foldersOnly (behind || isPattern component) rest) := by
      intro w calm next lead
      cases next with
      | nil => exact ⟨[], w, Task.finds_pure [] w, calm, rfl⟩
      | cons c more => exact ih calm _ later lead
    have leads : ∀ {step : Candidate → List Candidate},
        (∀ c, IsNormal c.path → Lead (step c)) → Lead (candidates.flatMap step) := by
      intro step each d member
      obtain ⟨c, among, inside⟩ := List.mem_flatMap.mp member
      exact each c (lead c among) d inside
    rw [followAll]
    split
    · next wild =>
      obtain ⟨w₁, first, calm₁⟩ := finds_followPattern calm pattern component
        (!rest.isEmpty || foldersOnly) lead
      obtain ⟨found, w₂, after, calm₂, shown⟩ := goesOn calm₁ (leads fun c => lead_picks calm.sound)
      refine ⟨found, w₂, first.andThen after, calm₂, ?_⟩
      rw [shown, wild, Bool.or_true, List.flatMap_assoc]
      exact List.flatMap_congr fun c _ => flatMap_picks wild
    · next plain =>
      obtain ⟨w₁, first, calm₁⟩ := finds_followLiteral calm pattern
        (steps component (List.mem_cons_self ..)) (!rest.isEmpty || foldersOnly) behind lead
      obtain ⟨found, w₂, after, calm₂, shown⟩ := goesOn calm₁ (leads fun c _ => lead_moves)
      refine ⟨found, w₂, first.andThen after, calm₂, ?_⟩
      rw [shown, Bool.eq_false_iff.mpr plain, Bool.or_false, List.flatMap_assoc]
      exact List.flatMap_congr fun c _ => flatMap_moves plain

/-! ### Arguments -/

private theorem pairwise_lt_mergeSort {texts : List String} (distinct : texts.Nodup) :
    (texts.mergeSort fun a b => a ≤ b).Pairwise (· < ·) := by
  have ordered : (texts.mergeSort fun a b => a ≤ b).Pairwise fun a b => a ≤ b := by
    refine (List.pairwise_mergeSort ?_ ?_ texts).imp fun {a b} before => by simpa using before
    · intro a b c
      simpa using le_trans
    · intro a b
      simpa using le_total a b
  have distinct' : (texts.mergeSort fun a b => a ≤ b).Nodup :=
    (List.mergeSort_perm texts _).nodup_iff.mpr distinct
  exact (ordered.and distinct').imp fun ⟨before, differ⟩ => lt_of_le_of_ne before differ

/-- A pattern finds what is shown of its walks, each once and in order. -/
theorem finds_expandPattern (calm : w.Calm site.cache site.remote s) (normal : IsNormal site.cwd)
    {pattern : String} (wild : isPattern pattern) :
    ∃ found w', (expandPattern site pattern).Finds w found w' ∧
      w'.Calm site.cache site.remote s ∧ found.Pairwise (· < ·) ∧
      ∀ shown, shown ∈ found ↔ ∃ names, IsWalk s site.cwd pattern names ∧
        walkText pattern names = shown := by
  obtain ⟨start, isStart⟩ : ∃ start : Candidate, start = if isAbsolute pattern then ⟨root, root⟩
      else ⟨"", normalize site.cwd⟩ := ⟨_, rfl⟩
  have path : start.path = if isAbsolute pattern then root else site.cwd := by
    rw [isStart, normalize_of_isNormal normal]
    split <;> rfl
  have begins : start.shown = if isAbsolute pattern then root else "" := by
    rw [isStart]
    split <;> rfl
  have normalStart : IsNormal start.path := by
    rw [path]
    split
    · exact isNormal_root
    · exact normal
  obtain ⟨found, w', finds, calm', shown⟩ := finds_followAll calm pattern
    (pattern.toList.getLast? = some '/') false (fun _ => isStep_of_mem_patternComponents pattern)
    (lead_cons.mpr ⟨normalStart, lead_nil⟩)
  -- what is sorted are the texts of the walks
  have isWalk : ∀ {names}, names ∈ walks s (pattern.toList.getLast? = some '/') false start.path
      (patternComponents pattern) ↔ IsWalk s site.cwd pattern names := by
    intro names
    rw [mem_walks_iff calm.sound normalStart, IsWalk, path]
  have pieces : ∀ {names}, IsWalk s site.cwd pattern names →
      names ≠ [] ∧ ∀ name ∈ names, IsPiece name := by
    intro names walk
    refine ⟨?_, walk.isPiece fun _ => isPiece_of_mem_patternComponents⟩
    rw [← List.length_pos_iff, walk.length_eq, List.length_pos_iff]
    exact patternComponents_ne_nil wild
  have texts : (found.map fun c =>
        if pattern.toList.getLast? = some '/' then c.shown ++ "/" else c.shown) =
      (walks s (pattern.toList.getLast? = some '/') false start.path
        (patternComponents pattern)).map (walkText pattern) := by
    have closed : (found.map fun c =>
          if pattern.toList.getLast? = some '/' then c.shown ++ "/" else c.shown) =
        (found.map Candidate.shown).map fun shown =>
          if pattern.toList.getLast? = some '/' then shown ++ "/" else shown := by
      rw [List.map_map]
      rfl
    rw [closed, shown, List.flatMap_singleton, shownFrom, List.map_map]
    refine List.map_congr_left fun names member => ?_
    obtain ⟨filled, pieces⟩ := pieces (isWalk.mp member)
    rw [Function.comp_apply, begins, foldl_showJoin_start _ filled pieces, walkText]
    split
    · rfl
    · rw [String.append_empty]
  have expands : (expandPattern site pattern).Finds w
      (((walks s (pattern.toList.getLast? = some '/') false start.path
        (patternComponents pattern)).map (walkText pattern)).mergeSort fun a b => a ≤ b) w' := by
    rw [← texts, expandPattern, ← isStart]
    exact finds.andThen (Task.finds_pure _ w')
  refine ⟨_, w', expands, calm', pairwise_lt_mergeSort ?_, fun shown => ?_⟩
  · refine (nodup_walks calm.sound normalStart).map_on fun names member others member' same => ?_
    obtain ⟨filled, pieces₁⟩ := pieces (isWalk.mp member)
    obtain ⟨filled', pieces₂⟩ := pieces (isWalk.mp member')
    exact walkText_inj filled filled' pieces₁ pieces₂ same
  · rw [List.mem_mergeSort, List.mem_map]
    simp only [isWalk]

/-- An argument that is expanded stands for the walks along it: what is shown of them, in order and
each once, or the argument itself if there are none. It does not matter which folders the cache
knows. -/
theorem expand_pattern {w : World} {text : String} (faithful : w.Faithful w.remote)
    (cacheKept : w.cache < w.caches.length)
    (idle : ∀ folder, (w.cacheAt w.cache).flight? folder = none)
    (sound : (w.remoteAt w.remote).store.Sound) (inStep : (w.cacheAt w.cache).InStep)
    (coherent : w.Coherent) (normal : IsNormal w.cwd) (wild : isPattern text)
    (basic : isExtended text = false) :
    ∃ found w', w.run? (expand w.site [⟨text, false⟩]).toScript = some (.ok found, w') ∧
      w.KeepsStores w' ∧ w'.Coherent ∧
      ((¬ ∃ names, IsWalk (w.remoteAt w.remote).store w.cwd text names) → found = [text]) ∧
      ((∃ names, IsWalk (w.remoteAt w.remote).store w.cwd text names) →
        found.Pairwise (· < ·) ∧ ∀ shown, shown ∈ found ↔
          ∃ names, IsWalk (w.remoteAt w.remote).store w.cwd text names ∧
            walkText text names = shown) := by
  have calm : w.Calm w.site.cache w.site.remote (w.remoteAt w.remote).store :=
    ⟨faithful, cacheKept, rfl, sound, idle, coherent.mirrors inStep sound⟩
  obtain ⟨found, w', finds, calm', ascending, member⟩ := finds_expandPattern calm normal wild
  have expanded : isExpanded w.site ⟨text, false⟩ = true := by
    simp [isExpanded, wild, basic]
  have runs : w.run? (expand w.site [⟨text, false⟩]).toScript =
      some (.ok (if found.isEmpty then [text] else found), w') := by
    have whole : (expand w.site [⟨text, false⟩]).Finds w
        ((if found.isEmpty then [text] else found) ++ []) w' := by
      rw [expand, if_pos expanded]
      exact finds.andThen ((Task.finds_pure [] w').andThen (Task.finds_pure _ w'))
    rw [List.append_nil] at whole
    exact whole.run?
  have kept := (looks_expand [⟨text, false⟩]).keepsStores runs
  have coherent' : w'.Coherent := by
    change w'.Calm w.cache w.remote _ at calm'
    rw [← kept.cache, ← kept.remote] at calm'
    refine World.coherent_of_mirrors ?_ ?_
    · rw [calm'.store]
      exact calm'.sound
    · rw [calm'.store]
      exact calm'.mirrors
  refine ⟨_, w', runs, kept, coherent', fun stays => ?_, fun walks => ?_⟩
  · have none : found = [] := by
      refine List.eq_nil_iff_forall_not_mem.mpr fun shown inside => ?_
      obtain ⟨names, walk, -⟩ := (member shown).mp inside
      exact stays ⟨names, walk⟩
    rw [none]
    rfl
  · obtain ⟨names, walk⟩ := walks
    have filled : found ≠ [] := List.ne_nil_of_mem ((member _).mpr ⟨names, walk, rfl⟩)
    rw [if_neg (by simpa using filled)]
    exact ⟨ascending, member⟩

/-! ### A shell that knows one folder of its store -/

section Notes

private def noteStore : Remote :=
  Trial.Supply.remote
    { objects := [("/docs/a.txt", some []), ("/docs/empty", none),
        ("/docs/other/notes.txt", some []), ("/docs/sub/notes.txt", some [])]
      listDelay := 5
      reversed := true }

private def noteShell : World :=
  { cwd := "/docs"
    remotes := [noteStore]
    caches := [Cache.empty.install "/docs" ((noteStore.store.list "/docs").toOption.getD [])] }

private theorem sound_noteStore : noteStore.store.Sound :=
  ((Store.built_fill _).protect false).sound

private theorem isNormal_docs : IsNormal "/docs" := by
  have same : normalize "/docs" = "/docs" := by decide +kernel
  rw [← same]
  exact isNormal_normalize _

private theorem exists_listing_docs : ∃ entries, noteStore.store.IsListing "/docs" entries ∧
    noteShell.cacheAt noteShell.cache = Cache.empty.install "/docs" entries := by
  cases listed : noteStore.store.list "/docs" with
  | ok entries =>
    refine ⟨entries, Store.isListing_of_list sound_noteStore isNormal_docs listed, ?_⟩
    change Cache.empty.install "/docs" ((noteStore.store.list "/docs").toOption.getD []) = _
    rw [listed]
    rfl
  | error failure =>
    have lists : (noteStore.store.list "/docs").isOk := by decide +kernel
    rw [listed] at lists
    cases lists

private theorem isWalk_notes {names : List String} :
    IsWalk (noteShell.remoteAt noteShell.remote).store noteShell.cwd "*/notes.txt" names ↔
      names = ["other", "notes.txt"] ∨ names = ["sub", "notes.txt"] := by
  have all : walks noteStore.store ("*/notes.txt".toList.getLast? = some '/') false "/docs"
      (patternComponents "*/notes.txt") = [["other", "notes.txt"], ["sub", "notes.txt"]] := by
    decide +kernel
  rw [IsWalk, if_neg (by decide)]
  refine (mem_walks_iff sound_noteStore isNormal_docs).symm.trans ?_
  rw [all]
  simp

/-- The notes are found one folder down, in the order of the folders. -/
theorem expand_pattern_notes : ∃ found w',
    noteShell.run? (expand noteShell.site [⟨"*/notes.txt", false⟩]).toScript = some (.ok found, w') ∧
      found.Pairwise (· < ·) ∧
      ∀ shown, shown ∈ found ↔ "other/notes.txt" = shown ∨ "sub/notes.txt" = shown := by
  obtain ⟨entries, listing, cache⟩ := exists_listing_docs
  have hasRoot : noteStore.store.HasRoot := ⟨.folder "" 0 0, by decide +kernel, rfl⟩
  have idle : ∀ folder, (noteShell.cacheAt noteShell.cache).flight? folder = none := by
    intro folder
    rw [cache]
    rfl
  have inStep : (noteShell.cacheAt noteShell.cache).InStep := by
    rw [cache]
    exact (Cache.inStep_of_rootOnly rfl).install isNormal_docs listing.named
  have coherent : noteShell.Coherent := by
    refine World.coherent_of_mirrors sound_noteStore ?_
    rw [cache]
    exact (Cache.mirrors_empty hasRoot).install sound_noteStore isNormal_docs listing (.refl _)
  have wild : isPattern "*/notes.txt" := by decide +kernel
  obtain ⟨found, w', ran, -, -, -, shown⟩ := expand_pattern ⟨by decide, rfl, rfl, rfl⟩ (by decide)
    idle sound_noteStore inStep coherent isNormal_docs wild (by decide +kernel)
  obtain ⟨ascending, member⟩ := shown ⟨_, isWalk_notes.mpr (Or.inl rfl)⟩
  refine ⟨found, w', ran, ascending, fun shown => ?_⟩
  have texts : walkText "*/notes.txt" ["other", "notes.txt"] = "other/notes.txt" ∧
      walkText "*/notes.txt" ["sub", "notes.txt"] = "sub/notes.txt" := by decide +kernel
  rw [member]
  simp only [isWalk_notes, or_and_right, exists_or, exists_eq_left, texts]

end Notes

end StoreShell.Glob
