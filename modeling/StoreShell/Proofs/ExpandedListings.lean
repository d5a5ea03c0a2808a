import StoreShell.Proofs.Errands
import StoreShell.Proofs.PatternExpansion

/-! # Expansion among others

While expansion waits for a listing, others may change the cache. A script among others runs along a
tape of what happens in the times that it has to wait (`Script.among?`).

Expansion has the children of a folder listed, but does not use what it gets: it asks the cache again.
This makes no difference as long as one of the listings is installed. If all are overtaken by changes
then the last is served without the cache, which knows nothing of it (`considers_of_ensured`).
-/

namespace StoreShell

open StoreShell.Path

/-! ### Scripts among others -/

/-- A time in which a script waits: what others do to the cache, and the answer of the service if the
script waits for it. -/
structure Interval where
  changes : List Cache.Operation
  answer : Except Failure (List Entry) := .ok []

namespace Interval

/-- Whether all entries come under their own names, those of others and those of the service. -/
structure WellNamed (i : Interval) : Prop where
  changes : ∀ o ∈ i.changes, o.WellNamed
  answer : ∀ entries, i.answer = .ok entries → ∀ e ∈ entries, IsName e.name

/-- Whether a listing of a folder that is under way for the time is stale in the end: it has been
overtaken, or its claim is gone. -/
def Overtakes (folder : String) (i : Interval) : Prop :=
  ∃ o ∈ i.changes, o.overtakes folder ∨ o.givesBack folder

end Interval

/-- A world, and the times of waiting that are ahead. -/
structure Surroundings where
  world : World
  ahead : List Interval

namespace World

def change (w : World) (cache : Nat) (changes : List Cache.Operation) : World :=
  w.setCache cache ((w.cacheAt cache).after changes)

/-- Waits until a folder is known or can be claimed, if it ever is, while others change a cache. -/
def claimAmong? (shared cache : Nat) (folder : String) (w : World) (ahead : List Interval) :
    Option (Option (List Entry) × Surroundings) :=
  match w.claim? cache folder with
  | some (known, w) => some (known, ⟨w, ahead⟩)
  | none =>
    match ahead with
    | [] => none
    | i :: rest => (w.change shared i.changes).claimAmong? shared cache folder rest

end World

/-- Runs a script that uses no streams among others, who change a cache whenever the script waits. -/
def Script.among? (shared : Nat) : Script α → Surroundings → Option (α × Surroundings)
  | .done a, s => some (a, s)
  | .ask r next, s =>
    let (a, world) := s.world.answer r
    (next a).among? shared { s with world }
  | .claim cache folder next, s =>
    match s.world.claimAmong? shared cache folder s.ahead with
    | none => none
    | some (known, s) => (next known).among? shared s
  | .list _ next, s =>
    match s.ahead with
    | [] => none
    | i :: rest => (next i.answer).among? shared ⟨s.world.change shared i.changes, rest⟩
  | .write .., _ | .flush .., _ | .copy .., _ | .collect .., _ | .saved .., _ | .release _, _
  | .hang, _ => none

section Scripts

variable {α β : Type} {shared : Nat} {s s' : Surroundings}

/-- A script that goes on with another one runs as the two do one after the other. -/
theorem Script.among?_bind (script : Script α) (f : α → Script β) (s : Surroundings) :
    (script.bind f).among? shared s =
      (script.among? shared s).bind fun (a, s) => (f a).among? shared s := by
  induction script generalizing s with
  | done => rfl
  | ask r next ih => exact ih _ _
  | claim cache folder next ih =>
    simp only [bind, among?]
    cases s.world.claimAmong? shared cache folder s.ahead with
    | none => rfl
    | some claimed => exact ih _ _
  | list l next ih =>
    simp only [bind, among?]
    cases s.ahead with
    | nil => rfl
    | cons i rest => exact ih _ _
  | write | flush | copy | collect | saved | release | hang => rfl

/-- Nobody comes between the questions of a script that only looks. -/
theorem Script.Tells.among? {script : Script α} {a : α} (tells : script.Tells s.world a) :
    script.among? shared s = some (a, s) := by
  induction tells with
  | done => rfl
  | @ask r next same _ ih =>
    change (next (s.world.answer r).1).among? shared { s with world := (s.world.answer r).2 } = _
    rw [same]
    exact ih

/-- Others may change the cache in either part of a task. -/
theorem Task.among?_andThen {t : Task α} {a : α}
    (first : t.toScript.among? shared s = some (.ok a, s')) (f : α → Task β) :
    (t >>= f).toScript.among? shared s = (f a).toScript.among? shared s' := by
  refine (Script.among?_bind t.toScript _ s).trans ?_
  rw [first]
  rfl

/-- A failure that is caught is a result among others as well. -/
theorem Task.among?_attempt {t : Task α} {result : Except Failure α}
    (ends : t.toScript.among? shared s = some (result, s')) :
    (Task.attempt t).toScript.among? shared s = some (.ok result, s') := by
  refine (Script.among?_bind t.toScript _ s).trans ?_
  rw [ends]
  rfl

end Scripts

/-! ### What is got among others -/

namespace Surroundings

/-- Whether a cache that others change exists and all that is told fits together, now and later. -/
structure Fit (shared : Nat) (s : Surroundings) : Prop where
  inside : shared < s.world.caches.length
  inStep : (s.world.cacheAt shared).InStep
  named : ∀ i ∈ s.ahead, i.WellNamed

/-- Whether entries are served although no listing was installed: so many listings of a folder were
overtaken one after the other, each after any time of waiting for the folder, and the entries are
those of the last. -/
inductive Served (folder : String) : Nat → List Interval → List Entry → Prop where
  | last {waited i listed} : i.Overtakes folder → i.answer = .ok listed →
      Served folder 1 (waited ++ [i]) (Task.sortByName listed)
  | again {attempts waited i later listed entries} : i.Overtakes folder → i.answer = .ok listed →
      Served folder attempts later entries →
      Served folder (attempts + 1) (waited ++ i :: later) entries

variable {shared remote again : Nat} {folder : String} {s s' : Surroundings} {w : World}
  {ahead rest : List Interval} {i : Interval} {entries : List Entry} {c : Cache}

/-- Another cache in the place of the shared one fits if it is in step. -/
theorem Fit.setCache (fit : s.Fit shared) (inStep : c.InStep) (later : rest <:+ s.ahead) :
    Fit shared ⟨s.world.setCache shared c, rest⟩ ∧ (s.world.setCache shared c).cacheAt shared = c := by
  have here : (s.world.setCache shared c).cacheAt shared = c := World.cacheAt_setCache fit.inside
  refine ⟨⟨?_, ?_, fun i member => fit.named i (later.subset member)⟩, here⟩
  · rw [World.setCache, List.length_set]
    exact fit.inside
  · rwa [here]

/-- Others leave a claim as it is if they do not overtake its listing. -/
theorem Fit.change (fit : Fit shared ⟨w, i :: rest⟩) (folder : String) :
    Fit shared ⟨w.change shared i.changes, rest⟩ ∧
      ((w.cacheAt shared).flight? folder = some false → ¬ i.Overtakes folder →
        ((w.change shared i.changes).cacheAt shared).flight? folder = some false) := by
  have named := (fit.named i (List.mem_cons_self ..)).changes
  obtain ⟨fit', here⟩ := fit.setCache (fit.inStep.after named) (List.suffix_cons i rest)
  refine ⟨fit', fun claimed free => ?_⟩
  simp only [Interval.Overtakes, not_exists, not_and, not_or, Bool.not_eq_true] at free
  have lasts := Cache.flight?_after (Option.isSome_of_eq_some claimed)
    fun o member => (free o member).2
  rw [World.change, here, lasts, claimed, List.any_eq_false.mpr fun o member => by
    simp [(free o member).1]]
  rfl

/-- A folder is known or it is claimed. -/
theorem Fit.claim? (fit : Fit shared ⟨w, ahead⟩) {known : Option (List Entry)} {w' : World}
    (got : w.claim? shared folder = some (known, w')) :
    Fit shared ⟨w', ahead⟩ ∧
      (∀ children, known = some children → (w'.cacheAt shared).children? folder = some children) ∧
      (known = none → (w'.cacheAt shared).flight? (normalize folder) = some false) := by
  cases known with
  | some children =>
    obtain rfl := World.eq_of_claim? got
    exact ⟨fit, fun _ same => same ▸ World.children?_of_claim? got, nofun⟩
  | none =>
    obtain ⟨begun, rfl⟩ := World.beginFetch_of_claim? got
    obtain ⟨nodes, flights⟩ := Cache.beginFetch_of_claimed _ _ begun
    obtain ⟨fit', here⟩ := fit.setCache (fit.inStep.of_nodes nodes) (List.suffix_refl ahead)
    refine ⟨fit', nofun, fun _ => ?_⟩
    rw [here, flights, if_pos rfl]

/-- A folder that was waited for is known or it is claimed. -/
theorem Fit.claimAmong? (fit : Fit shared ⟨w, ahead⟩) {known : Option (List Entry)}
    (got : w.claimAmong? shared shared folder ahead = some (known, s')) :
    s'.Fit shared ∧ s'.ahead <:+ ahead ∧
      (∀ children, known = some children →
        (s'.world.cacheAt shared).children? folder = some children) ∧
      (known = none → (s'.world.cacheAt shared).flight? (normalize folder) = some false) := by
  induction ahead generalizing w with
  | nil =>
    rw [World.claimAmong?] at got
    split at got
    · next claimed =>
      cases got
      obtain ⟨fit', told⟩ := fit.claim? claimed
      exact ⟨fit', List.suffix_refl _, told⟩
    · cases got
  | cons i rest ih =>
    rw [World.claimAmong?] at got
    split at got
    · next claimed =>
      cases got
      obtain ⟨fit', told⟩ := fit.claim? claimed
      exact ⟨fit', List.suffix_refl _, told⟩
    · obtain ⟨fit', later, told⟩ := ih (fit.change folder).1 got
      exact ⟨fit', later.trans (List.suffix_cons i rest), told⟩

/-- A listing that is given back is dropped if it is stale, and else the folder is known. -/
theorem Fit.finishFetch (fit : Fit shared ⟨w, ahead⟩) (named : ∀ e ∈ entries, IsName e.name)
    {told : Option (List Entry)} {w' : World}
    (given : w.answer (.finishFetch shared folder (some entries)) = (told, w')) :
    Fit shared ⟨w', ahead⟩ ∧
      (∀ children, told = some children → (w'.cacheAt shared).children? folder = some children) ∧
      (told = none → (w.cacheAt shared).flight? (normalize folder) ≠ some false) := by
  have inStep : ((w.cacheAt shared).finishFetch folder (some entries)).2.InStep :=
    fit.inStep.apply (o := .finishFetch folder (some entries)) named
  obtain ⟨fit', -⟩ := fit.setCache inStep (List.suffix_refl ahead)
  have moved : w' = w.setCache shared ((w.cacheAt shared).finishFetch folder (some entries)).2 := by
    rw [← World.answer_finishFetch, given]
  refine ⟨moved ▸ fit', ?_, ?_⟩
  · rintro children rfl
    obtain ⟨-, ⟨none, -⟩ | ⟨_, same, known⟩⟩ := World.answer_finishFetch_cases w shared folder _ given
    · cases none
    · cases same
      exact known
  · rintro rfl fresh
    rw [World.answer, World.onCache, Cache.finishFetch_of_fresh _ _ fresh] at given
    have unknown := congrArg Prod.fst given
    dsimp only at unknown
    rw [Cache.children?, Cache.childNames?_install_self] at unknown
    cases unknown

/-- What comes of a listing of a claimed folder: its children are known in the end, or the listing was
overtaken and it is stale. -/
theorem Fit.handOver (normal : IsNormal folder) (fit : Fit shared ⟨w, i :: rest⟩)
    (claimed : (w.cacheAt shared).flight? folder = some false)
    {whenStale : List Entry → Script (Except Failure (List Entry))}
    (ensured : (Errand.handOver shared folder whenStale i.answer).among? shared
      ⟨w.change shared i.changes, rest⟩ = some (.ok entries, s')) :
    (s'.Fit shared ∧ s'.ahead = rest ∧
        (s'.world.cacheAt shared).children? folder = some entries) ∨
      ∃ listed w', i.Overtakes folder ∧ i.answer = .ok listed ∧ Fit shared ⟨w', rest⟩ ∧
        (whenStale listed).among? shared ⟨w', rest⟩ = some (.ok entries, s') := by
  obtain ⟨fit₁, lasts⟩ := fit.change folder
  cases answered : i.answer with
  | error failure =>
    rw [answered] at ensured
    cases ensured
  | ok listed =>
    have named := (fit.named i (List.mem_cons_self ..)).answer listed answered
    rw [answered, Errand.handOver, Script.among?] at ensured
    cases given : (w.change shared i.changes).answer (.finishFetch shared folder (some listed)) with
    | mk told w' =>
      obtain ⟨fit', known, stale⟩ := fit₁.finishFetch named given
      simp only [given] at ensured
      cases told with
      | some children =>
        cases ensured
        exact Or.inl ⟨fit', rfl, known _ rfl⟩
      | none =>
        rw [normalize_of_isNormal normal] at stale
        have overtaken : i.Overtakes folder := by
          by_contra free
          exact stale rfl (lasts claimed free)
        exact Or.inr ⟨listed, w', overtaken, rfl, fit', ensured⟩

/-- One attempt to get the children of a folder: they are known in the end, or the listing was
overtaken and the attempt goes on with it. -/
theorem Fit.attempt (normal : IsNormal folder) (fit : s.Fit shared)
    {whenStale : List Entry → Script (Except Failure (List Entry))}
    (ensured : (Script.claim shared folder (Errand.goOn shared remote folder whenStale)).among? shared
      s = some (.ok entries, s')) :
    (s'.Fit shared ∧ s'.ahead <:+ s.ahead ∧
        (s'.world.cacheAt shared).children? folder = some entries) ∨
      ∃ (i : Interval) (listed : List Entry) (s₁ : Surroundings), i :: s₁.ahead <:+ s.ahead ∧
        i.Overtakes folder ∧ i.answer = .ok listed ∧ s₁.Fit shared ∧
        (whenStale listed).among? shared s₁ = some (.ok entries, s') := by
  rw [Script.among?] at ensured
  split at ensured
  · cases ensured
  · next known s₁ got =>
    obtain ⟨fit₁, later, told, claimed⟩ := fit.claimAmong? got
    cases known with
    | some children =>
      cases ensured
      exact Or.inl ⟨fit₁, later, told _ rfl⟩
    | none =>
      rw [normalize_of_isNormal normal] at claimed
      obtain ⟨w₁, ahead⟩ := s₁
      rw [Errand.goOn, Script.among?] at ensured
      split at ensured
      · cases ensured
      · next i rest more =>
        cases more
        rcases fit₁.handOver normal (claimed rfl) ensured with
          ⟨fit', used, known⟩ | ⟨listed, w', overtaken, answered, fit', goesOn⟩
        · exact Or.inl ⟨fit', used ▸ (List.suffix_cons i rest).trans later, known⟩
        · exact Or.inr ⟨i, listed, ⟨w', rest⟩, later, overtaken, answered, fit', goesOn⟩

/-- The children of a folder are known once they are got, unless all listings were overtaken. -/
theorem Fit.ensureChildrenIn (normal : IsNormal folder) (fit : s.Fit shared)
    (ensured : (Task.ensureChildrenIn shared remote folder again).among? shared s =
      some (.ok entries, s')) :
    s'.Fit shared ∧ ∃ past, past ++ s'.ahead = s.ahead ∧
      ((s'.world.cacheAt shared).children? folder = some entries ∨
        Served folder (again + 1) past entries) := by
  induction again generalizing s with
  | zero =>
    rw [Errand.ensureChildrenIn_eq] at ensured
    rcases fit.attempt normal ensured with
      ⟨fit', ⟨past, whole⟩, known⟩ | ⟨i, listed, s₁, ⟨before, whole⟩, overtaken, answered, fit₁, goesOn⟩
    · exact ⟨fit', past, whole, Or.inl known⟩
    · cases goesOn
      refine ⟨fit₁, before ++ [i], ?_, Or.inr (.last overtaken answered)⟩
      rw [List.append_assoc, List.singleton_append, whole]
  | succ again ih =>
    rw [Errand.ensureChildrenIn_eq] at ensured
    rcases fit.attempt normal ensured with
      ⟨fit', ⟨past, whole⟩, known⟩ | ⟨i, listed, s₁, ⟨before, whole⟩, overtaken, answered, fit₁, goesOn⟩
    · exact ⟨fit', past, whole, Or.inl known⟩
    · obtain ⟨fit', after, rest, outcome⟩ := ih fit₁ goesOn
      refine ⟨fit', before ++ i :: after, ?_, outcome.imp_right (.again overtaken answered)⟩
      rw [List.append_assoc, List.cons_append, rest, whole]

end Surroundings

namespace Glob

variable {site : Site} {s s' : Surroundings} {folder : String} {entries : List Entry}

/-! ### What expansion makes of it -/

/-- Whether children have a name among them, which has to be the one of a folder if one is needed. -/
def hasNamed (children : List Entry) (name : String) (needFolder : Bool) : Bool :=
  children.any fun e => e.name = name && (!needFolder || e.isFolder)

/-- Loading a folder succeeds if its children are got. -/
theorem among?_load (pattern : String)
    (asFolder : ((s.world.cacheAt site.cache).get? folder).any (fun e => !e.isFolder) = false)
    (ensured : (Task.ensureChildren site.cache site.remote folder).toScript.among? site.cache s =
      some (.ok entries, s')) :
    (load site pattern folder).toScript.among? site.cache s = some (.ok true, s') := by
  rw [load, Task.among?_andThen (Task.tells_ask (r := .known site.cache folder) rfl).among?]
  change (if ((s.world.cacheAt site.cache).get? folder).any (fun e => !e.isFolder) then _
    else _ : Task Bool).toScript.among? _ _ = _
  rw [asFolder, if_neg Bool.false_ne_true, Task.among?_andThen (Task.among?_attempt ensured)]
  rfl

/-- What is left of the paths that a cache in step tells for a wildcard component. -/
theorem filter_matching_of_inStep {cache : Cache} (inStep : cache.InStep)
    (component : String) (needFolder : Bool) {c : Candidate} (normal : IsNormal c.path) :
    ((cache.matching c.path component).map fun path =>
      (⟨Candidate.showJoin c.shown (fileName path), path⟩ : Candidate)).filter (fun d =>
        !needFolder || (cache.get? d.path).any Entry.isFolder) =
      picksAmong ((cache.children? c.path).getD []) component needFolder c := by
  cases listed : cache.childNames? c.path with
  | none =>
    have unlisted : cache.childNames? (normalize c.path) = none := by
      rw [normalize_of_isNormal normal, listed]
    rw [Cache.matching, Cache.children?, unlisted]
    rfl
  | some names =>
    obtain ⟨children, told, same, member⟩ :=
      inStep.children?_eq ((normalize_of_isNormal normal).symm ▸ listed)
    rw [told]
    refine filter_matching component normal listed same fun e inside => ?_
    obtain ⟨among, here⟩ := (member e).mp inside
    rw [normalize_of_isNormal normal] at here
    have named := ((inStep.names listed).mp among).1
    rw [Cache.get?_of_isNormal _ (normal.join named)]
    exact ⟨named, here⟩

/-- What a cache in step has at the path of a child is the child of this name. -/
theorem hasNamed_of_inStep {cache : Cache} (inStep : cache.InStep) {name : String}
    (named : IsName name) {children : List Entry} (told : cache.children? folder = some children)
    (needFolder : Bool) : ((cache.get? (join folder name)).any fun e => !needFolder || e.isFolder) =
      hasNamed children name needFolder := by
  have loaded : cache.isLoaded folder := by
    obtain ⟨names, listed, -⟩ := Option.map_eq_some_iff.mp told
    exact Option.isSome_of_eq_some listed
  obtain ⟨others, told', -, -, member⟩ := inStep.consistent.children folder loaded
  cases told.symm.trans told'
  rw [Bool.eq_iff_iff, Option.any_eq_true, hasNamed, List.any_eq_true]
  refine exists_congr fun e => ?_
  rw [← member name named e, and_assoc, Bool.and_eq_true, decide_eq_true_iff]

/-- Whatever others do to the cache while a folder is being listed, expansion goes on to the children
that the cache tells once it has got those of the folder, and to none if the cache does not know the
folder then. These are the ones that it got, unless three listings of the folder were overtaken one
after the other and the last was served. -/
theorem considers_of_ensured {shown name component : String} {needFolder : Bool}
    (normal : IsNormal folder) (named : IsName name) (fit : s.Fit site.cache)
    (asFolder : ((s.world.cacheAt site.cache).get? folder).any (fun e => !e.isFolder) = false)
    (ensured : (Task.ensureChildren site.cache site.remote folder).toScript.among? site.cache s =
      some (.ok entries, s')) (pattern : String) (rest : List Candidate) :
    let c := s'.world.cacheAt site.cache
    (followPattern site pattern component needFolder (⟨shown, folder⟩ :: rest)).toScript.among?
        site.cache s =
      (do
        let found := picksAmong ((c.children? folder).getD []) component needFolder ⟨shown, folder⟩
        return found ++ (← followPattern site pattern component needFolder rest) :
          Task (List Candidate)).toScript.among? site.cache s' ∧
    (exists? site pattern folder name needFolder).toScript.among? site.cache s =
      some (.ok (match c.children? folder with
        | some children => hasNamed children name needFolder
        | none => (c.get? (join folder name)).any fun e => !needFolder || e.isFolder), s') ∧
    ∃ past, past ++ s'.ahead = s.ahead ∧ (c.children? folder = some entries ∨
      Surroundings.Served folder listingAttempts past entries) := by
  intro c
  have loads := among?_load pattern asFolder ensured
  have fitted : s'.Fit site.cache ∧ ∃ past, past ++ s'.ahead = s.ahead ∧
      (c.children? folder = some entries ∨
        Surroundings.Served folder listingAttempts past entries) := by
    rw [Task.ensureChildren, normalize_of_isNormal normal] at ensured
    exact fit.ensureChildrenIn normal ensured
  obtain ⟨fit', outcome⟩ := fitted
  refine ⟨?_, ?_, outcome⟩
  · rw [followPattern, Task.among?_andThen loads, if_pos rfl,
      Task.among?_andThen (Task.tells_ask (r := .matching site.cache folder component) rfl).among?,
      Task.among?_andThen (tells_keepFolders _ needFolder _).among?]
    exact congrArg (fun found => (do
      return found ++ (← followPattern site pattern component needFolder rest) :
        Task (List Candidate)).toScript.among? site.cache s')
      (filter_matching_of_inStep fit'.inStep component needFolder normal)
  · have notDots : ¬ (name = "." || name = "..") := by
      obtain ⟨-, -, notDot, notDots⟩ := named
      rw [Bool.or_eq_true, decide_eq_true_iff, decide_eq_true_iff]
      rintro (rfl | rfl)
      · exact notDot rfl
      · exact notDots rfl
    rw [exists?, if_neg notDots, Task.among?_andThen loads]
    refine (Task.among?_andThen
      (Task.tells_ask (r := .known site.cache (join folder name)) rfl).among? _).trans ?_
    have found : (match c.children? folder with
        | some children => hasNamed children name needFolder
        | none => (c.get? (join folder name)).any fun e => !needFolder || e.isFolder) =
        (c.get? (join folder name)).any fun e => !needFolder || e.isFolder := by
      split
      · next children told => exact (hasNamed_of_inStep fit'.inStep named told needFolder).symm
      · rfl
    have looked : (s'.world.answer (.known site.cache (join folder name))).1 =
        c.get? (join folder name) := rfl
    rw [found, looked]
    cases c.get? (join folder name) with
    | none => rfl
    | some e => rfl

section Churn

private def rootSite : Site := ⟨0, 0, root, false⟩

private def draft : Entry := ⟨"f", .file, 1, 0, none⟩

private def churning : Surroundings where
  world := { remotes := [] }
  ahead := [⟨[.add ⟨"g", .file, 2, 0, none⟩ "/d/g"], .ok []⟩, ⟨[.invalidate "/d"], .ok [draft]⟩,
    ⟨[.beginFetch "/e", .clear], .ok [draft]⟩]

private theorem fit_churning : churning.Fit 0 where
  inside := by decide
  inStep := Cache.inStep_of_rootOnly rfl
  named := by
    have drafted : ∀ e ∈ [draft], IsName e.name := by
      simp only [List.forall_mem_singleton, draft, IsName, IsComponent]
      decide
    simp only [churning, List.forall_mem_cons, List.not_mem_nil, false_implies, implies_true, and_true]
    refine ⟨⟨?_, ?_⟩, ⟨?_, ?_⟩, ?_, ?_⟩
    · simp only [List.forall_mem_singleton, Cache.Operation.WellNamed]
      decide +kernel
    · rintro _ ⟨⟩
      exact List.forall_mem_nil _
    · simp [Cache.Operation.WellNamed]
    · rintro _ ⟨⟩
      exact drafted
    · simp [Cache.Operation.WellNamed]
    · rintro _ ⟨⟩
      exact drafted

/-- The child that was served for the folder is not found. -/
theorem considers_of_ensured_churning : ∃ s',
    (Task.ensureChildren 0 0 "/d").toScript.among? 0 churning = some (.ok [draft], s') ∧
    (followPattern rootSite "/*/f" "*" false [⟨"/d", "/d"⟩]).toScript.among? 0 churning =
      some (.ok [], s') ∧
    (exists? rootSite "/*/f" "/d" "f" false).toScript.among? 0 churning = some (.ok false, s') ∧
    Surroundings.Served "/d" 3 churning.ahead [draft] := by
  have ran : ((Task.ensureChildren 0 0 "/d").toScript.among? 0 churning).map (fun (result, s) =>
      (result.toOption, (s.world.cacheAt 0).children? "/d", (s.world.cacheAt 0).get? "/d/f",
        s.ahead.length)) = some (some [draft], none, none, 0) := by
    decide +kernel
  obtain ⟨⟨result, s'⟩, ensured, looks⟩ := Option.map_eq_some_iff.mp ran
  simp only [Prod.mk.injEq, List.length_eq_zero_iff] at looks
  obtain ⟨got, unknown, missing, used⟩ := looks
  cases result with
  | error failure => cases got
  | ok entries =>
    cases got
    have normal : IsNormal "/d" := by
      have same : normalize "/d" = "/d" := by decide +kernel
      exact same ▸ isNormal_normalize _
    have named : IsName "f" := by
      simp only [IsName, IsComponent]
      decide
    have below : join "/d" "f" = "/d/f" := by decide +kernel
    obtain ⟨wild, literal, past, whole, outcome⟩ := @considers_of_ensured rootSite churning s' "/d"
      [draft] "/d" "f" "*" false normal named fit_churning (by decide +kernel) ensured "/*/f" []
    change (s'.world.cacheAt rootSite.cache).children? "/d" = none at unknown
    change (s'.world.cacheAt rootSite.cache).get? "/d/f" = none at missing
    rw [unknown] at wild literal outcome
    rw [below, missing] at literal
    rw [used, List.append_nil] at whole
    exact ⟨s', ensured, wild, literal, whole ▸ outcome.resolve_left (Option.some_ne_none _).symm⟩

private def restless : World where
  remotes := [Trial.Supply.remote
    { objects := [("/d/f", some [])]
      churn := [{ path := "/d", action := .invalidate, left := some 3 }] }]

/-- Getting the children of the folder gives one that the pattern accepts, but neither the pattern nor
its name finds it, and an argument stays as it is. -/
theorem expand_restless :
    (restless.run? (Task.ensureChildren 0 0 "/d").toScript).map
      (fun (result, _) => result.toOption.map fun entries => entries.map Entry.name) =
        some (some ["f"]) ∧
    (Pattern.ofText "*").accepts "f" ∧
    (restless.run? (followPattern rootSite "/d/*" "*" false [⟨"/d", "/d"⟩]).toScript).map
      (fun (found, _) => found.toOption) = some (some []) ∧
    (restless.run? (exists? rootSite "/*/f" "/d" "f" false).toScript).map
      (fun (found, _) => found.toOption) = some (some false) ∧
    (restless.run? (expand rootSite [⟨"/d/*", false⟩]).toScript).map
      (fun (found, _) => found.toOption) = some (some ["/d/*"]) := by
  decide +kernel

end Churn

end Glob

end StoreShell
