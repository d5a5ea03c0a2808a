import StoreShell.Proofs.ClientCommands

/-! # Changes while a listing is on its way

A listing tells what a folder had when the service looked, and arrives later. What a client does to
the folder in the meantime makes the listing stale: the cache is told of every object that is made,
removed or moved. It is not told of the folders that `mkdir -p` makes on the way to its operand. If
one of them is a child of the folder, the listing arrives without it and is installed all the same.
`Client.mem_children_of_finished` says that this is the only thing that a listing can miss.
-/

namespace StoreShell

open StoreShell.Path

variable {d : String}

/-! ### What changes do to the listing of a folder -/

namespace Cache

/-- Whether a folder that is being listed still is, with no children known, and its listing is only
fresh if it was fresh before and something is true. -/
structure Awaits (d : String) (c c' : Cache) (clear : Prop) : Prop where
  unknown : c.childNames? d = none → c'.childNames? d = none
  claimed : (c.flight? d).isSome → (c'.flight? d).isSome
  fresh : c'.flight? d = some false → c.flight? d = some false ∧ clear

variable {c c' c'' : Cache} {clear clear' : Prop}

theorem Awaits.refl (c : Cache) : c.Awaits d c True := ⟨id, id, fun fresh => ⟨fresh, trivial⟩⟩

/-- What is awaited across two steps was clear of both if it is still fresh. -/
theorem Awaits.trans (first : c.Awaits d c' clear) (second : c'.Awaits d c'' clear') :
    c.Awaits d c'' (clear ∧ clear') where
  unknown := second.unknown ∘ first.unknown
  claimed := second.claimed ∘ first.claimed
  fresh fresh :=
    have ⟨between, clear'⟩ := second.fresh fresh
    have ⟨before, clear⟩ := first.fresh between
    ⟨before, clear, clear'⟩

theorem Awaits.imp (awaits : c.Awaits d c' clear) (implies : clear → clear') :
    c.Awaits d c' clear' :=
  ⟨awaits.unknown, awaits.claimed, fun fresh => (awaits.fresh fresh).imp_right implies⟩

private theorem eq_of_map_or {stale : Option Bool} {chosen : Bool}
    (fresh : stale.map (· || chosen) = some false) : stale = some false ∧ chosen = false := by
  obtain ⟨before, rfl, neither⟩ := Option.map_eq_some_iff.mp fresh
  rw [Bool.or_eq_false_iff] at neither
  exact ⟨congrArg some neither.1, neither.2⟩

/-- A listing that is still fresh is not one of the folder that a new entry is in. -/
theorem awaits_add (c : Cache) (e : Entry) (path : String) :
    c.Awaits d (c.add e path) (parent? (normalize path) ≠ some d) where
  unknown unknown := by
    rw [childNames?_add, unknown]
    split <;> rfl
  claimed claimed := by rwa [isSome_flight?_add]
  fresh fresh := by
    rw [flight?_add] at fresh
    obtain ⟨before, aside⟩ := eq_of_map_or fresh
    exact ⟨before, of_decide_eq_false aside⟩

/-- Forgetting folders delivers no children, ends no listing and makes none fresh. -/
theorem awaits_invalidate (c : Cache) (folder : String) :
    c.Awaits d (c.invalidate folder) True where
  unknown unknown := by
    rw [childNames?_invalidate, unknown]
    split <;> rfl
  claimed claimed := by rwa [isSome_flight?_invalidate]
  fresh fresh := by
    rw [flight?_invalidate] at fresh
    exact ⟨(eq_of_map_or fresh).1, trivial⟩

/-- Forgetting folders on the way does no more than forgetting folders. -/
theorem awaits_forgetStale (c : Cache) (path : String) :
    c.Awaits d (c.forgetStale path) True := by
  rcases forgetStale_eq c path with same | ⟨folder, same⟩
  · rw [same]
    exact .refl c
  · rw [same]
    exact awaits_invalidate c folder

/-- A listing that is still fresh had neither its folder removed nor an object in it. -/
theorem awaits_remove (c : Cache) {path parent : String}
    (above : parent? (normalize path) = some parent) :
    c.Awaits d (c.remove path)
      (¬ isWithin d (normalize path) ∧ parent? (normalize path) ≠ some d) where
  unknown unknown := by
    rw [childNames?_remove _ above, unknown]
    split_ifs <;> rfl
  claimed claimed := by rwa [isSome_flight?_remove]
  fresh fresh := by
    rw [flight?_remove _ above] at fresh
    obtain ⟨before, aside⟩ := eq_of_map_or fresh
    rw [Bool.or_eq_false_iff, decide_eq_false_iff_not] at aside
    refine ⟨before, Bool.eq_false_iff.mp aside.1, ?_⟩
    rw [above, Ne, Option.some.injEq]
    exact Ne.symm aside.2

private theorem awaits_install (c : Cache) {folder : String} (differ : d ≠ folder)
    (entries : List Entry) : c.Awaits d (c.install folder entries) True where
  unknown unknown := by
    refine Option.eq_none_iff_forall_ne_some.mpr fun names loaded => ?_
    rw [(childNames?_of_install_of_ne c differ loaded).1] at unknown
    cases unknown
  claimed := id
  fresh fresh := ⟨fresh, trivial⟩

private theorem awaits_touchWhere (c : Cache) (chosen : String → Bool) :
    c.Awaits d (c.touchWhere chosen) True where
  unknown := (childNames?_touchWhere c chosen d).trans
  claimed claimed := by rwa [isSome_flight?_touchWhere]
  fresh fresh := by
    rw [flight?_touchWhere] at fresh
    exact ⟨(eq_of_map_or fresh).1, trivial⟩

private theorem awaits_clear (c : Cache) : c.Awaits d c.clear True where
  unknown _ := childNames?_of_rootOnly rfl d
  claimed claimed := by rwa [isSome_flight?_clear]
  fresh := (awaits_touchWhere c _).fresh

/-- Operations that do not deliver the children of a folder leave its listing awaited. -/
theorem awaits_apply {o : Operation} (spares : o.Spares d) (claimed : (c.flight? d).isSome) :
    c.Awaits d (o.apply c) True := by
  cases o with
  | add e path => exact (awaits_add c e path).imp fun _ => trivial
  | addChildren folder entries =>
    exact ((awaits_touchWhere c _).trans (awaits_install _ (Ne.symm spares) entries)).imp
      fun _ => trivial
  | invalidate folder => exact awaits_invalidate c folder
  | remove path =>
    cases above : parent? (normalize path) with
    | none =>
      have same : c.remove path = c.clear := by rw [remove, above]
      rw [Operation.apply, same]
      exact awaits_clear c
    | some parent => exact (awaits_remove c above).imp fun _ => trivial
  | clear => exact awaits_clear c
  | beginFetch folder =>
    cases begun : (c.beginFetch folder).1 with
    | false =>
      rw [Operation.apply, beginFetch_of_refused c folder begun]
      exact .refl c
    | true =>
      obtain ⟨nodes, flights⟩ := beginFetch_of_claimed c folder begun
      have same : (c.beginFetch folder).2.flight? d = c.flight? d := by
        rw [flights, if_neg (normalize_ne_of_claimed c folder d claimed begun)]
      refine ⟨fun unknown => ?_, fun claimed => same ▸ claimed, fun fresh => ⟨same ▸ fresh, trivial⟩⟩
      rw [Operation.apply, childNames?, nodes]
      exact unknown
  | finishFetch folder entries =>
    have landed : c.Awaits d (c.landed (normalize folder)) True := by
      have same : (c.landed (normalize folder)).flight? d = c.flight? d := by
        rw [flight?_landed, if_neg spares]
      exact ⟨id, fun claimed => same ▸ claimed, fun fresh => ⟨same ▸ fresh, trivial⟩⟩
    rcases finishFetch_cases c folder entries with ⟨-, refused⟩ | ⟨entries, -, -, installed⟩
    · rw [Operation.apply, refused]
      exact landed
    · rw [Operation.apply, installed]
      exact (landed.trans (awaits_install _ (Ne.symm spares) entries)).imp fun _ => trivial

end Cache

/-! ### What changes do to the children of a folder -/

namespace Store

/-- Whether a folder stays, with its children and, besides, some that were made. -/
structure Spares (d : String) (s : Store) (made : Set String) (s' : Store) : Prop where
  folder : ∀ {o}, s.get? d = some o → o.entry.isFolder → s'.get? d = some o
  children : ∀ {name}, IsName name →
    ((∃ o, s'.get? (join d name) = some o) ∧ join d name ∉ made ↔ ∃ o, s.get? (join d name) = some o)

variable {s s' : Store} {path source target : String} {e : Entry}

theorem Spares.refl (d : String) (s : Store) : s.Spares d ∅ s :=
  ⟨fun found _ => found, fun _ => by simp⟩

/-- A child of a folder that is at a path is no other child. -/
theorem join_ne_of_parent? {name : String} (normal : IsNormal d) (named : IsName name)
    (aside : parent? path ≠ some d) : join d name ≠ path := by
  rintro rfl
  exact aside (parent?_join normal named)

/-- A file that is written in another folder leaves the children of this one as they are. -/
theorem WritesFile.spares (writes : WritesFile s s' path e) (normal : IsNormal d)
    (aside : parent? path ≠ some d) : s.Spares d ∅ s' := by
  obtain ⟨new, -, -, effect⟩ := writes.effect
  refine ⟨fun {o} found folderly => ?_, fun {name} named => ?_⟩
  · rw [effect, if_neg, found]
    rintro rfl
    rw [writes.before o found] at folderly
    cases folderly
  · rw [effect, if_neg (Ne.symm (join_ne_of_parent? normal named aside))]
    simp

/-- Of a folder made elsewhere, a folder can get only children that were made on the way. -/
theorem MakesFolder.spares {parents : Bool} (makes : MakesFolder s s' path parents e)
    (normal : IsNormal d) (aside : parent? path ≠ some d) : s.Spares d (besides path s s') s' := by
  refine ⟨fun found _ => makes.kept found, fun {name} named => ⟨?_, ?_⟩⟩
  · rintro ⟨⟨o, found⟩, unmade⟩
    cases before : s.get? (join d name) with
    | some o => exact ⟨o, rfl⟩
    | none => exact absurd ⟨join_ne_of_parent? normal named aside, before, o, found⟩ unmade
  · rintro ⟨o, found⟩
    refine ⟨⟨o, makes.kept found⟩, fun made => ?_⟩
    cases found.symm.trans made.2.1

/-- Without the folders above it, nothing is made besides the folder. -/
theorem MakesFolder.besides_eq (makes : MakesFolder s s' path false e) : besides path s s' = ∅ := by
  refine Set.eq_empty_of_forall_notMem fun other made => ?_
  obtain ⟨differ, missing, o, found⟩ := made
  exact absurd (makes.fresh differ found missing).1 Bool.false_ne_true

/-- An object that is removed elsewhere leaves the children of a folder as they are. -/
theorem Removes.spares (removes : Removes s s' path) (normal : IsNormal d)
    (outside : ¬ isWithin d path) (aside : parent? path ≠ some d) : s.Spares d ∅ s' := by
  refine ⟨fun found _ => ?_, fun {name} named => ?_⟩
  · rw [removes.effect, if_neg outside, found]
  · rw [removes.effect, if_neg]
    · simp
    · rw [isWithin_iff, isBelow_join_iff normal named removes.normal, or_iff_left outside]
      exact join_ne_of_parent? normal named aside

/-- A move between other folders leaves the children of a folder as they are. -/
theorem Moves.spares (sound : s.Sound) (moves : Moves s s' source target e) (normal : IsNormal d)
    {o : StoredObject} (found : s.get? d = some o) (outside : ¬ isWithin d source)
    (aside : parent? source ≠ some d) (aside' : parent? target ≠ some d) : s.Spares d ∅ s' := by
  have leaves := moves.leaves.spares normal outside aside
  have stays : (s.without source).get? d = some o := by
    rw [moves.leaves.effect, if_neg outside, found]
  refine ⟨fun there folderly => moves.kept (leaves.folder there folderly), fun {name} named => ?_⟩
  rw [← leaves.children named]
  simp only [Set.mem_empty_iff_false, not_false_eq_true, and_true]
  refine ⟨fun ⟨o', there⟩ => ?_, fun ⟨o', there⟩ => ⟨o', moves.kept there⟩⟩
  cases before : (s.without source).get? (join d name) with
  | some o => exact ⟨o, rfl⟩
  | none =>
    -- what is new is where the object went, and the folder would have to be new as well
    have within := moves.fresh there before
    rw [isWithin_iff, isBelow_join_iff normal named moves.normal,
      or_iff_right (join_ne_of_parent? normal named aside')] at within
    rw [(moves.leaves.sound sound).get?_of_isWithin moves.free moves.normal within] at stays
    cases stays

end Store

/-! ### Clients that wait for a listing -/

namespace Client

/-- How a client stands while it lists a folder: its children are not known, and whatever is said of
them is true as long as the listing is fresh. -/
structure Lists (d : String) (m : Client) (fresh : Prop) : Prop where
  sound : m.store.Sound
  unknown : m.cache.childNames? d = none
  claimed : (m.cache.flight? d).isSome
  told : m.cache.flight? d = some false → fresh

/-- What is said of a folder with its children at the moment: it is a folder, and these are its
children but for some that were made. -/
def Told (d : String) (names : List String) (passed : Set String) (s : Store) : Prop :=
  (∃ o, s.get? d = some o ∧ o.entry.isFolder) ∧ ∀ {name}, IsName name →
    (name ∈ names ↔ (∃ o, s.get? (join d name) = some o) ∧ join d name ∉ passed)

variable {m m' : Client} {names : List String} {passed made : Set String}

theorem Step.sound (step : Step d m made m') (sound : m.store.Sound) : m'.store.Sound := by
  cases step with
  | write done => exact (Store.writesFile_write done).sound sound
  | append done => exact (Store.writesFile_append done).sound sound
  | makeFolder done | makeFolders done => exact (Store.makesFolder_makeFolder sound done).sound
  | remove done => exact (Store.removes_remove done).sound sound
  | rename done => exact (Store.moves_rename sound done).sound
  | cached => exact sound

/-- A step leaves a listing on its way, and if it stays fresh then its folder has got no children but
those that the cache was not told of. -/
theorem Step.awaits (step : Step d m made m') (normal : IsNormal d) (sound : m.store.Sound)
    (claimed : (m.cache.flight? d).isSome) :
    m.cache.Awaits d m'.cache
      ((∃ o, m.store.get? d = some o) → m.store.Spares d made m'.store) := by
  -- projections have to go first: comparing them with what is done to a cache unfolds that
  cases step <;> dsimp only
  case write c s s' path content e done =>
    exact (Cache.awaits_add c e path).imp fun aside _ =>
      (Store.writesFile_write done).spares normal aside
  case append c s s' path content e done =>
    exact (Cache.awaits_add c e path).imp fun aside _ =>
      (Store.writesFile_append done).spares normal aside
  case makeFolder c s s' path e done =>
    refine (Cache.awaits_add c e path).imp fun aside _ => ?_
    have makes := Store.makesFolder_makeFolder sound done
    have spares := makes.spares normal aside
    rwa [makes.besides_eq] at spares
  case makeFolders c s s' path e done =>
    exact ((Cache.awaits_forgetStale c path).trans (Cache.awaits_add _ e path)).imp
      fun aside _ => (Store.makesFolder_makeFolder sound done).spares normal aside.2
  case remove c s s' path recursive done =>
    have removes := Store.removes_remove done
    obtain ⟨parent, above⟩ := removes.normal.exists_parent? removes.deep
    exact (Cache.awaits_remove c above).imp fun aside _ => removes.spares normal aside.1 aside.2
  case rename c s s' source target e done =>
    have moves := Store.moves_rename sound done
    obtain ⟨parent, above⟩ := moves.leaves.normal.exists_parent? moves.leaves.deep
    refine ((Cache.awaits_remove c above).trans (Cache.awaits_add _ e target)).imp
      fun aside there => ?_
    obtain ⟨o, found⟩ := there
    exact moves.spares sound normal found aside.1.1 aside.1.2 aside.2
  case cached c s o spares =>
    exact (Cache.awaits_apply spares claimed).imp fun _ _ => .refl d s

/-- What is true of a listing that stays fresh may depend on what the step did to the folder. -/
theorem Lists.step {told told' : Prop} (lists : Lists d m told) (normal : IsNormal d)
    (step : Step d m made m')
    (goesOn : ((∃ o, m.store.get? d = some o) → m.store.Spares d made m'.store) → told → told') :
    Lists d m' told' where
  sound := step.sound lists.sound
  unknown := (step.awaits normal lists.sound lists.claimed).unknown lists.unknown
  claimed := (step.awaits normal lists.sound lists.claimed).claimed lists.claimed
  told fresh :=
    have ⟨before, spares⟩ := (step.awaits normal lists.sound lists.claimed).fresh fresh
    goesOn spares (lists.told before)

private theorem Lists.run (lists : Lists d m True) (normal : IsNormal d)
    (run : Run d m made m') : Lists d m' True := by
  induction run with
  | refl => exact lists
  | step _ step ih => exact ih.step normal step fun _ => id

private theorem Told.spares {s s' : Store} (told : Told d names passed s)
    (spares : (∃ o, s.get? d = some o) → s.Spares d made s') :
    Told d names (passed ∪ made) s' := by
  obtain ⟨⟨o, found, folderly⟩, children⟩ := told
  have spares := spares ⟨o, found⟩
  refine ⟨⟨o, spares.folder found folderly, folderly⟩, fun {name} named => ?_⟩
  rw [children named, ← spares.children named, Set.mem_union, not_or, and_assoc,
    and_comm (a := join d name ∉ made)]

/-- As long as a listing is fresh, it tells the children of its folder but for those that the cache
was not told of. -/
theorem Lists.run_told (lists : Lists d m (Told d names ∅ m.store))
    (normal : IsNormal d) (run : Run d m passed m') :
    Lists d m' (Told d names passed m'.store) := by
  induction run with
  | refl => exact lists
  | step _ step ih =>
    exact ih.step normal step fun spares told => told.spares spares

private theorem lists_beginFetch {c : Cache} {s : Store} (sound : s.Sound) {folder : String}
    (claimed : (c.beginFetch folder).1 = true) :
    Lists (normalize folder) ⟨(c.beginFetch folder).2, s⟩ True := by
  obtain ⟨nodes, flights⟩ := c.beginFetch_of_claimed folder claimed
  refine ⟨sound, ?_, ?_, fun _ => trivial⟩
  · rw [Cache.childNames?, nodes]
    exact (c.free_of_claimed folder claimed).1
  · rw [flights, if_pos rfl]
    rfl

end Client

/-- The names of the children of a folder that was just listed are those of the listing. -/
theorem Cache.map_name_children?_install {c : Cache} {folder : String}
    {entries children : List Entry} (named : ∀ e ∈ entries, IsName e.name)
    (loaded : (c.install (normalize folder) entries).children? folder = some children)
    (name : String) :
    name ∈ children.map Entry.name ↔ name ∈ entries.map Entry.name := by
  rw [children?, childNames?_install_self, Option.map_some, Option.some.injEq] at loaded
  have listed : ∀ name, name ∈ (Std.TreeSet.ofList (entries.map Entry.name)).toList ↔
      name ∈ entries.map Entry.name := by
    intro name
    rw [Std.TreeSet.mem_toList, mem_ofList_iff]
  rw [← loaded, map_name_filterMap, listed]
  intro name member
  obtain ⟨e, inside, rfl⟩ := List.mem_map.mp ((listed name).mp member)
  obtain ⟨e', -, same, found⟩ :=
    exists_entryAt?_install c (isNormal_normalize folder) named inside
  exact ⟨e', same, found⟩

/-- Whatever a client does while a folder is listed, before or after the service looks: if the
children of the folder are known once the listing has arrived, they are the children that the folder
has in the store by then, but for folders that `mkdir -p` has made on the way to its operand since
the service looked. -/
theorem Client.mem_children_of_finished {c : Cache} {s : Store} (sound : s.Sound) {folder : String}
    (claimed : (c.beginFetch folder).1 = true) {found final : Client} {earlier passed : Set String}
    (before : Run (normalize folder) ⟨(c.beginFetch folder).2, s⟩ earlier found)
    (after : Run (normalize folder) found passed final) {children : List Entry}
    (loaded : (final.cache.finishFetch folder (found.store.list folder).toOption).2.children? folder =
      some children) :
    ∃ current, final.store.list folder = .ok current ∧ ∀ name, name ∈ children.map Entry.name ↔
      name ∈ current.map Entry.name ∧ join (normalize folder) name ∉ passed := by
  have normal := isNormal_normalize folder
  have looked := (lists_beginFetch sound claimed).run normal before
  -- a listing that is not installed leaves the folder unknown
  have installed : ∀ {entries : Option (List Entry)} {told : Prop},
      Lists (normalize folder) final told →
      (final.cache.finishFetch folder entries).2.children? folder = some children →
      ¬ (final.cache.flight? (normalize folder) ≠ some false ∨ entries = none) := by
    intro entries told listing loaded stale
    have unknown : (final.cache.landed (normalize folder)).childNames? (normalize folder) = none :=
      listing.unknown
    rw [Cache.finishFetch_of_stale _ _ stale, Cache.children?, unknown] at loaded
    cases loaded
  cases listed : found.store.list folder with
  | error failure =>
    rw [listed] at loaded
    exact absurd (Or.inr rfl) (installed (looked.run normal after) loaded)
  | ok entries =>
    rw [listed] at loaded
    have listing := Store.isListing_of_list looked.sound normal
      ((Store.list_normalize ..).trans listed)
    have told : Told (normalize folder) (entries.map Entry.name) ∅ found.store :=
      ⟨listing.isFolder, fun {name} named => by
        simp [listing.mem_names looked.sound normal name, named]⟩
    have arrives := Lists.run_told ⟨looked.sound, looked.unknown, looked.claimed, fun _ => told⟩
      normal after
    have fresh := installed arrives loaded
    rw [not_or, not_not] at fresh
    rw [Except.toOption, Cache.finishFetch_of_fresh _ _ fresh.1] at loaded
    obtain ⟨⟨o, there, folderly⟩, children⟩ := arrives.told fresh.1
    obtain ⟨current, done, listing'⟩ := Store.exists_isListing arrives.sound normal there folderly
    refine ⟨current, (Store.list_normalize ..).symm.trans done, fun name => ?_⟩
    rw [Cache.map_name_children?_install listing.named loaded,
      listing'.mem_names arrives.sound normal]
    by_cases named : IsName name
    · rw [children named, and_iff_right named]
    · simp only [named, false_and, iff_false]
      exact fun member => named ((listing.mem_names looked.sound normal name).mp member).1

def World.listing : World where
  remotes := [{ store := Store.empty.insertFolder "/a/old" }]
  caches := [(Cache.empty.beginFetch "/a").2]

/-- While `/a` is listed, `mkdir -p /a/b/c` makes `/a/b/c` with the folders above it. The listing is
installed without `b`, which was made on the way. -/
theorem Client.exists_overlooked : ∃ (scene : Scene) (passed : Set String)
    (children current : List Entry),
      (Command.mkdir ["-p", "/a/b/c"]).toScript.run? { world := .listing } = some (.ok (), scene) ∧
      Run "/a" World.listing.client passed scene.world.client ∧
      (scene.world.client.cache.finishFetch "/a"
        (World.listing.client.store.list "/a").toOption).2.children? "/a" = some children ∧
      scene.world.client.store.list "/a" = .ok current ∧
      children.map Entry.name = ["old"] ∧ current.map Entry.name = ["b", "old"] ∧
      "/a/b" ∈ passed := by
  have evaluated : ((Command.mkdir ["-p", "/a/b/c"]).toScript.run? { world := .listing }).map
      (fun (result, scene) => (result.toOption,
        ((scene.world.client.cache.finishFetch "/a"
          (World.listing.client.store.list "/a").toOption).2.children? "/a").map (·.map Entry.name),
        (scene.world.client.store.list "/a").toOption.map (·.map Entry.name))) =
      some (some (), some ["old"], some ["b", "old"]) := by
    decide +kernel
  obtain ⟨⟨result, scene⟩, ran, shown⟩ := Option.map_eq_some_iff.mp evaluated
  simp only [Prod.mk.injEq] at shown
  obtain ⟨succeeded, installed, stored⟩ := shown
  obtain rfl : result = .ok () := by
    cases result with
    | ok => rfl
    | error failure => cases succeeded
  obtain ⟨children, loaded, names⟩ := Option.map_eq_some_iff.mp installed
  have here : normalize "/a" = "/a" := by decide +kernel
  obtain ⟨-, passed, run⟩ := Command.acts_mkdir (d := "/a") ["-p", "/a/b/c"] .listing
    ⟨Nat.one_pos, Nat.one_pos⟩ _ rfl _ scene ran
  obtain ⟨current, listed, tells⟩ := mem_children_of_finished
    (Store.sound_insertFolder Store.sound_empty "/a/old") (by decide +kernel) .refl
    (here ▸ run) loaded
  have there : current.map Entry.name = ["b", "old"] := by
    rw [listed] at stored
    exact Option.some.inj stored
  refine ⟨scene, passed, children, current, ran, run, loaded, listed, names, there, ?_⟩
  -- the store has `b`, and the children that the cache tells do not have it
  rw [here] at tells
  refine by_contra fun told => ?_
  have listed := (tells "b").mpr ⟨by rw [there]; decide, told⟩
  rw [names] at listed
  exact absurd listed (by decide)

end StoreShell
