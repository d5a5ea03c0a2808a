import StoreShell.Proofs.Errands
import StoreShell.Proofs.Looking
import StoreShell.Proofs.Sessions

/-! # Worlds where entries come under their own names

The children of a folder are shown in the order in which a cache keeps them, which is that of the
names under which it has them. So they are shown in the order of their own names if entries come under
these everywhere: in the caches, in the stores, and in the answers that are on their way. `World.Named`
says so. Time may pass, folders may be listed by whomever, and services may fail as they like: a named
world stays named.
-/

namespace StoreShell

open StoreShell.Path

/-- Whether the entries of an answer have names that a folder can have for its children. -/
def NamedAnswer (answer : Except Failure (List Entry)) : Prop :=
  ∀ entries, answer = .ok entries → ∀ e ∈ entries, IsName e.name

/-- Whether the answer to a listing, if it is on its way, has such names. -/
def Listing.Named (l : Listing) : Prop :=
  ∀ answer due, l.stage = .answered answer due → NamedAnswer answer

/-- Whether entries come under their own names in all caches, in all stores and in all answers on their
way. -/
structure World.Named (w : World) : Prop where
  caches : ∀ c ∈ w.caches, c.InStep
  stores : ∀ r ∈ w.remotes, r.store.Sound
  background : ∀ p ∈ w.background, p.listing.Named

/-- Whether what has become of a listing has such names. -/
def World.ListingProgress.Named : World.ListingProgress → Prop
  | .inl l => l.Named
  | .inr answer => NamedAnswer answer

theorem namedAnswer_error (failure : Failure) : NamedAnswer (.error failure) := by
  rintro _ ⟨⟩

theorem Listing.named_of_asked {l : Listing} (asked : l.stage = .asked) : l.Named := by
  intro answer due answered
  rw [asked] at answered
  cases answered

namespace World.Named

variable {w w' : World} {c : Cache} {l : Listing} {cache : Nat} {folder : String}

/-- Each cache is in step, be it one that there is or the empty one beyond them. -/
theorem cacheAt (named : w.Named) (id : Nat) : (w.cacheAt id).InStep := by
  rw [World.cacheAt]
  cases found : w.caches[id]? with
  | none => exact Cache.inStep_of_rootOnly rfl
  | some c => exact named.caches c (List.mem_of_getElem? found)

theorem remoteAt (named : w.Named) (id : Nat) : (w.remoteAt id).store.Sound := by
  rw [World.remoteAt]
  cases found : w.remotes[id]? with
  | none => exact Store.sound_empty
  | some r => exact named.stores r (List.mem_of_getElem? found)

theorem setCache (named : w.Named) (id : Nat) (inStep : c.InStep) : (w.setCache id c).Named := by
  refine ⟨fun d member => ?_, named.stores, named.background⟩
  rcases List.mem_or_eq_of_mem_set member with old | rfl
  · exact named.caches d old
  · exact inStep

theorem setRemote (named : w.Named) (id : Nat) {r : Remote} (sound : r.store.Sound) :
    (w.setRemote id r).Named := by
  refine ⟨named.caches, fun s member => ?_, named.background⟩
  rcases List.mem_or_eq_of_mem_set member with old | rfl
  · exact named.stores s old
  · exact sound

theorem clock (named : w.Named) (clock : Nat) : ({ w with clock } : World).Named :=
  ⟨named.caches, named.stores, named.background⟩

theorem query {α : Type} (named : w.Named) (id : Nat) (call : Call)
    (look : Store → Except Failure α) : (w.onRemote id (·.query call look)).2.Named := by
  have same := (w.remoteAt id).store_query call look
  exact named.setRemote id (same ▸ named.remoteAt id)

/-! ### Listings and time -/

/-- A service lists a folder under the names that its store has for the children. -/
theorem look (named : w.Named) (l : Listing) : NamedAnswer (w.look l) := by
  intro entries found
  rcases (w.remoteAt l.remote).look_cases l.folder with
    ⟨failure, -, failed⟩ | ⟨listed, shuffled, done, looked, perm⟩
  · rw [World.look, failed] at found
    cases found
  · rw [World.look, looked] at found
    cases found
    rw [← Store.list_normalize] at done
    have isListing := Store.isListing_of_list (named.remoteAt _) (isNormal_normalize _) done
    exact fun e member => isListing.named e (perm.mem_iff.mp member)

private theorem isName_churn (n : Nat) : IsName s!"churn{n}" := by
  have spelled : s!"churn{n}".toList = "churn".toList ++ Nat.toDigits 10 n := by
    change ("churn" ++ toString n).toList = _
    rw [String.toList_append]
    exact congrArg _ Nat.toList_repr
  rw [IsName, spelled]
  refine ⟨by simp, fun slash => ?_, by simp, by simp⟩
  rcases List.mem_append.mp slash with word | number
  · revert word
    decide
  · have digit := Nat.isDigit_of_mem_toDigits (by decide) (by decide) number
    revert digit
    decide

private theorem inStep_applyChurns (inStep : c.InStep) (folder : String) (churns : List Churn) :
    (applyChurns folder c churns).1.InStep := by
  induction churns generalizing c with
  | nil => exact inStep
  | cons churn rest ih =>
    refine ih (c := (applyChurn folder c churn).1) ?_
    rw [applyChurn]
    split
    · dsimp only
      cases churn.action with
      | add =>
        have named := isName_churn (churn.used + 1)
        have own := fileName_join (isNormal_normalize folder) named
        rw [← normalize_join folder named] at own
        exact inStep.add fun _ => own.symm
      | invalidate => exact inStep.invalidate folder
      | clear => exact Cache.inStep_of_rootOnly rfl
    · exact inStep

theorem arrive (named : w.Named) (l : Listing) : (w.arrive l).Named :=
  (named.setCache _ (inStep_applyChurns (named.cacheAt _) _ _)).setRemote _ (named.remoteAt _)

theorem request (named : w.Named) (l : Listing) : (w.request l).2.Named := by
  have same : ((w.remoteAt l.remote).receive (.listFolder l.folder)).2.store.Sound :=
    named.remoteAt l.remote
  rw [World.request]
  generalize (w.remoteAt l.remote).receive (.listFolder l.folder) = received at same
  obtain ⟨answer, r⟩ := received
  cases answer with
  | error failure => exact named.setRemote _ same
  | ok _ => exact named.setRemote _ same

private theorem advanceAnswered (named : w.Named) {answer : Except Failure (List Entry)}
    (own : NamedAnswer answer) (due : Nat) : (w.advanceAnswered l answer due).2.Named ∧
      (w.advanceAnswered l answer due).1.Named := by
  rw [World.advanceAnswered]
  split
  · exact ⟨named.arrive l, own⟩
  · refine ⟨named, ?_⟩
    rintro _ _ ⟨⟩
    exact own

private theorem advanceUnderWay (named : w.Named) (l : Listing) (due : Nat) :
    (w.advanceUnderWay l due).2.Named ∧ (w.advanceUnderWay l due).1.Named := by
  rw [World.advanceUnderWay]
  split
  · exact named.advanceAnswered (named.look l) _
  · refine ⟨named, ?_⟩
    rintro _ _ ⟨⟩

/-- A listing goes on in a named world, and if it is answered the answer is named. -/
theorem advance (named : w.Named) (own : l.Named) :
    (w.advance l).2.Named ∧ (w.advance l).1.Named := by
  rw [World.advance]
  split
  · have called := named.request l
    split
    · next requested =>
      rw [requested] at called
      exact ⟨called, namedAnswer_error _⟩
    · next requested =>
      rw [requested] at called
      exact called.advanceUnderWay l _
  · exact named.advanceUnderWay l _
  · next answer due answered => exact named.advanceAnswered (own answer due answered) due

/-- A listing with proper names keeps the cache that takes it in step. -/
theorem finishFetch (named : w.Named) (cache : Nat) (folder : String)
    {answer : Except Failure (List Entry)} (own : NamedAnswer answer) :
    (w.setCache cache ((w.cacheAt cache).finishFetch folder answer.toOption).2).Named := by
  refine named.setCache cache ((named.cacheAt cache).apply
    (o := .finishFetch folder answer.toOption) ?_)
  cases answer with
  | error failure => trivial
  | ok entries => exact own entries rfl

private theorem runPrefetch (named : w.Named) {p : Prefetch} (own : p.listing.Named) :
    (w.runPrefetch p).Named := by
  obtain ⟨kept, progress⟩ := named.advance own
  rw [World.runPrefetch]
  split
  · next listing v advanced =>
    rw [advanced] at kept progress
    refine ⟨kept.caches, kept.stores, fun q member => ?_⟩
    rcases List.mem_append.mp member with old | new
    · exact kept.background q old
    · rw [List.mem_singleton.mp new]
      exact progress
  · next answer v advanced =>
    rw [advanced] at kept progress
    exact kept.finishFetch _ _ progress

/-- By induction on the listings in the background. -/
theorem runBackground (named : w.Named) : w.runBackground.Named := by
  have turns : ∀ (ps : List Prefetch) (v : World), v.Named → (∀ p ∈ ps, p.listing.Named) →
      (ps.foldl World.runPrefetch v).Named := by
    intro ps
    induction ps with
    | nil => exact fun v named _ => named
    | cons p rest ih =>
      intro v named own
      obtain ⟨first, later⟩ := List.forall_mem_cons.mp own
      exact ih _ (named.runPrefetch first) later
  exact turns w.background _ ⟨named.caches, named.stores, List.forall_mem_nil _⟩ named.background

private theorem waitUntilIn (named : w.Named) (time turns : Nat) :
    (World.waitUntilIn time turns w).Named := by
  induction turns generalizing w with
  | zero => exact named.clock _
  | succ turns ih =>
    have background := named.runBackground
    rw [World.waitUntilIn]
    split
    · exact background.clock _
    · split
      · exact ih (background.clock _)
      · exact background.clock _

/-- Names stay proper while time passes. -/
theorem waitUntil (named : w.Named) (time : Nat) : (w.waitUntil time).Named := by
  rw [World.waitUntil]
  split
  · exact named
  · exact named.waitUntilIn time _

theorem claim? {children : Option (List Entry)} (named : w.Named)
    (claimed : w.claim? cache folder = some (children, w')) : w'.Named := by
  cases children with
  | some children => exact World.eq_of_claim? claimed ▸ named
  | none =>
    obtain ⟨begun, rfl⟩ := World.beginFetch_of_claim? claimed
    exact named.setCache cache
      ((named.cacheAt cache).of_nodes (Cache.beginFetch_of_claimed _ _ begun).1)

private theorem awaitClaimIn {children : Option (List Entry)} {turns : Nat} (named : w.Named)
    (awaited : World.awaitClaimIn cache folder turns w = some (children, w')) : w'.Named ∧
      ∀ known, children = some known → (w'.cacheAt cache).children? folder = some known := by
  have told : ∀ {v : World}, v.Named → v.claim? cache folder = some (children, w') → w'.Named ∧
      ∀ known, children = some known → (w'.cacheAt cache).children? folder = some known := by
    intro v named claimed
    refine ⟨named.claim? claimed, ?_⟩
    rintro known rfl
    have same := World.eq_of_claim? claimed
    exact same ▸ World.children?_of_claim? claimed
  induction turns generalizing w with
  | zero => exact told named awaited
  | succ turns ih =>
    have background := named.runBackground
    rw [World.awaitClaimIn] at awaited
    split at awaited
    · next here =>
      cases awaited
      exact told named here
    · dsimp only at awaited
      split at awaited
      · next later =>
        cases awaited
        exact told background later
      · split at awaited
        · cases awaited
        · exact ih (background.clock _) awaited

/-- A folder that is waited for is known in the end, or it is to be listed. -/
theorem awaitClaim {children : Option (List Entry)} (named : w.Named)
    (awaited : w.awaitClaim cache folder = some (children, w')) : w'.Named ∧
      ∀ known, children = some known → (w'.cacheAt cache).children? folder = some known :=
  named.awaitClaimIn awaited

private theorem awaitUnderWay (named : w.Named) (l : Listing) (due : Nat) :
    (w.awaitUnderWay l due).2.Named ∧ NamedAnswer (w.awaitUnderWay l due).1 :=
  ⟨((named.waitUntil due).waitUntil _).arrive l, (named.waitUntil due).look l⟩

/-- What is waited for comes with proper names. -/
theorem awaitListing (named : w.Named) (own : l.Named) :
    (w.awaitListing l).2.Named ∧ NamedAnswer (w.awaitListing l).1 := by
  rw [World.awaitListing]
  split
  · have called := named.request l
    split
    · next requested =>
      rw [requested] at called
      exact ⟨called, namedAnswer_error _⟩
    · next requested =>
      rw [requested] at called
      exact called.awaitUnderWay l _
  · exact named.awaitUnderWay l _
  · next answer due answered =>
    exact ⟨(named.waitUntil due).arrive l, own answer due answered⟩

end World.Named

/-- A world is named that has just been set up, however its service is to behave. -/
theorem Trial.named_start (supply : Supply) (settings : Settings) (area : Option Area)
    (cwd : Option String) : (start supply settings area cwd).Named := by
  have first : ({ settings, remotes := [supply.remote] } : World).Named := by
    refine ⟨?_, ?_, List.forall_mem_nil _⟩
    · exact List.forall_mem_singleton.mpr (Cache.inStep_of_rootOnly rfl)
    · exact List.forall_mem_singleton.mpr
        ((Store.built_fill supply.objects).protect supply.readOnly).sound
  have moved : ∀ {w : World}, w.Named → ∀ cwd, ({ w with cwd } : World).Named :=
    fun named _ => ⟨named.caches, named.stores, named.background⟩
  have switched : ∀ area : Area,
      ((({ settings, remotes := [supply.remote] } : World).switchArea area none).Named) := by
    intro area
    refine ⟨fun c member => ?_, first.stores, first.background⟩
    rcases List.mem_append.mp member with old | new
    · exact first.caches c old
    · exact List.mem_singleton.mp new ▸ Cache.inStep_of_rootOnly rfl
  cases area <;> cases cwd
  · exact first
  · exact moved first _
  · exact switched _
  · exact moved (switched _) _

/-! ### Scripts in named worlds -/

/-- Whether a script that is run in a named world leads to one, with a result of some kind. -/
def Script.KeepsNamed {α : Type} (kind : α → Prop) (s : Script α) : Prop :=
  ∀ scene a scene', scene.world.Named → s.run? scene = some (a, scene') →
    scene'.world.Named ∧ kind a

/-- Whether children that were got stand in ascending order of their names. -/
def Ascending (result : Except Failure (List Entry)) : Prop :=
  ∀ children, result = .ok children → (children.map Entry.name).Pairwise (· ≤ ·)

namespace Script

variable {α : Type} {kind : α → Prop} {a : α} {cache remote : Nat} {folder : String}

/-- The world that a script leads to is named if it began with one. -/
theorem KeepsNamed.world {s : Script α} (keeps : s.KeepsNamed kind) {w w' : World} (named : w.Named)
    (ran : w.run? s = some (a, w')) : w'.Named ∧ kind a := by
  obtain ⟨⟨_, scene⟩, ends, same⟩ := Option.map_eq_some_iff.mp ran
  cases same
  exact keeps _ _ _ named ends

theorem keepsNamed_done (proper : kind a) : KeepsNamed kind (.done a) := by
  rintro scene _ _ named ⟨⟩
  exact ⟨named, proper⟩

/-- A script keeps names if each of its questions does, with what follows its answer. -/
theorem keepsNamed_ask {r : Request} {next : r.Answer → Script α}
    (keeps : ∀ {w : World}, w.Named → (w.answer r).2.Named ∧ KeepsNamed kind (next (w.answer r).1)) :
    KeepsNamed kind (.ask r next) := by
  intro scene a scene' named ran
  obtain ⟨named', goesOn⟩ := keeps named
  exact goesOn _ _ _ named' ran

private theorem keepsNamed_handOver {whenStale : List Entry → Script (Except Failure (List Entry))}
    {answer : Except Failure (List Entry)} (own : NamedAnswer answer)
    (again : ∀ entries, KeepsNamed Ascending (whenStale entries)) :
    KeepsNamed Ascending (Errand.handOver cache folder whenStale answer) := by
  cases answer with
  | error failure =>
    refine keepsNamed_ask fun named => ⟨?_, keepsNamed_done (by rintro _ ⟨⟩)⟩
    rw [World.answer_finishFetch]
    exact named.finishFetch cache folder own
  | ok entries =>
    refine keepsNamed_ask fun {w} named => ?_
    have named' := named.finishFetch cache folder own
    rw [Except.toOption, ← World.answer_finishFetch] at named'
    cases given : w.answer (.finishFetch cache folder (some entries)) with
    | mk told w' =>
      rw [given] at named'
      refine ⟨named', ?_⟩
      obtain ⟨-, ⟨rfl, -⟩ | ⟨children, rfl, known⟩⟩ :=
        w.answer_finishFetch_cases cache folder (some entries) given
      · exact again entries
      · refine keepsNamed_done ?_
        rintro _ ⟨⟩
        exact ((named'.cacheAt cache).pairwise_children? known).imp le_of_lt

/-- One attempt to get the children of a folder, which may be given up for others. -/
theorem keepsNamed_attempt {whenStale : List Entry → Script (Except Failure (List Entry))}
    (again : ∀ entries, KeepsNamed Ascending (whenStale entries)) :
    KeepsNamed Ascending (.claim cache folder (Errand.goOn cache remote folder whenStale)) := by
  intro scene result scene' named ran
  rw [run?] at ran
  split at ran
  · cases ran
  · next known w awaited =>
    obtain ⟨named', told⟩ := named.awaitClaim awaited
    cases known with
    | some children =>
      cases ran
      refine ⟨named', ?_⟩
      rintro _ ⟨⟩
      exact ((named'.cacheAt cache).pairwise_children? (told children rfl)).imp le_of_lt
    | none =>
      have asked : (⟨remote, folder, .asked⟩ : Listing).Named := Listing.named_of_asked rfl
      obtain ⟨listed, own⟩ := named'.awaitListing asked
      exact keepsNamed_handOver own again _ _ _ listed ran

/-- The children that were got are in the order of their names, whether the cache knew them or they
were listed. -/
theorem keepsNamed_ensureChildrenIn (cache remote : Nat) (folder : String) (again : Nat) :
    KeepsNamed Ascending (Task.ensureChildrenIn cache remote folder again) := by
  induction again with
  | zero =>
    rw [Errand.ensureChildrenIn_eq]
    refine keepsNamed_attempt fun entries => keepsNamed_done ?_
    rintro _ ⟨⟩
    exact List.pairwise_map.mpr (Cache.pairwise_mergeSort_name entries)
  | succ again ih =>
    rw [Errand.ensureChildrenIn_eq]
    exact keepsNamed_attempt fun _ => ih

/-- The children of a folder are got in ascending order of their names. -/
theorem keepsNamed_ensureChildren (cache remote : Nat) (folder : String) :
    KeepsNamed Ascending (Task.ensureChildren cache remote folder).toScript :=
  keepsNamed_ensureChildrenIn cache remote (normalize folder) _

/-- What follows may count on the kind of result that the first part has. -/
theorem keepsNamed_andThen {α β : Type} {t : Task α} {f : α → Task β} {kind : α → Prop}
    (first : KeepsNamed (fun result => ∀ a, result = .ok a → kind a) t.toScript)
    (next : ∀ a, kind a → KeepsNamed (fun _ => True) (f a).toScript) :
    KeepsNamed (fun _ => True) (t >>= f).toScript := by
  intro scene result scene' named ran
  rw [Task.run?_andThen] at ran
  obtain ⟨⟨found, between⟩, before, after⟩ := Option.bind_eq_some_iff.mp ran
  obtain ⟨named', proper⟩ := first _ _ _ named before
  cases found with
  | error failure =>
    cases after
    exact ⟨named', trivial⟩
  | ok a => exact next a (proper a rfl) _ _ _ named' after

/-- A store tells an object under its own name. -/
theorem keepsNamed_request_stat (remote : Nat) {path : String} (normal : IsNormal path) :
    KeepsNamed (fun result => ∀ e, result = .ok e → path ≠ root → e.name = fileName path)
      (request (.stat remote path)) := by
  refine keepsNamed_ask fun {w} named => ⟨named.query _ _ _, keepsNamed_done fun e answered deep => ?_⟩
  change ((w.remoteAt remote).query (.stat path) (·.stat path)).1 = .ok e at answered
  have found := Remote.look_of_query answered
  rw [Store.stat, normalize_of_isNormal normal] at found
  split at found
  · cases found
  · next o stored =>
    cases found
    exact (named.remoteAt remote).named stored

theorem keepsNamed_stat (path : String) : KeepsNamed (fun _ => True) (Task.stat path).toScript := by
  have free : ∀ (r : Request), (∀ w : World, (w.answer r).2 = w) →
      KeepsNamed (fun result => ∀ a, result = .ok a → True) (Task.ask r).toScript := by
    intro r same
    refine keepsNamed_ask fun {w} named => ⟨?_, keepsNamed_done fun _ _ => trivial⟩
    rwa [same]
  refine keepsNamed_andThen (free .desk fun _ => rfl) fun desk _ => ?_
  refine keepsNamed_andThen (free (.known _ _) fun _ => rfl) fun known _ => ?_
  cases known with
  | some entry => exact keepsNamed_done trivial
  | none =>
    have normal := isNormal_resolve desk.cwd path
    refine keepsNamed_andThen (keepsNamed_request_stat desk.remote normal) fun entry own => ?_
    refine keepsNamed_ask fun {w} named => ⟨?_, keepsNamed_done trivial⟩
    refine named.setCache _ ((named.cacheAt _).add ?_)
    rwa [normalize_of_isNormal normal]

end Script

end StoreShell
