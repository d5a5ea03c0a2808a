import Mathlib.Data.List.Forall2
import StoreShell.Proofs.CoupledLines
import StoreShell.Trial

/-! # Sessions of a sole client

A session runs lines one after the other on one world. If the shell is the only client of its store
and starts with a fresh cache, then after every line the cache tells nothing but what the store would
tell, and a session that starts every line with an empty cache shows the same outputs and verdicts
and leaves the same stores behind. Error texts are not compared: a folder that `cat` refuses is
named in other words if the cache knows it.
-/

namespace StoreShell

open StoreShell.Path

/-- Runs lines one after the other, each over outlets of its own and after something was done to the
world: how every line ended, and on what stage. -/
def session (r : Registry) (before : World → World) :
    List (String × Outlets) → World → Option (List (Verdict × Stage))
  | [], _ => some []
  | (line, outlets) :: rest, w => do
    let (verdict, stage) ← runLine r line ⟨{ before w with cancelled := false }, outlets⟩
    let later ← session r before rest stage.world
    return (verdict, stage) :: later

/-- A store that is filled for a trial is built by insertions. -/
theorem Store.built_fill (objects : List (String × Option Bytes)) :
    (Trial.fill objects).Built := by
  rw [Trial.fill]
  generalize start : Store.empty = s
  have built : s.Built := start ▸ .empty
  clear start
  induction objects generalizing s with
  | nil => exact built
  | cons object rest ih =>
    obtain ⟨path, content⟩ := object
    rw [List.foldl_cons]
    cases content with
    | none => exact ih _ (built.insertFolder path)
    | some content => exact ih _ (built.insertFile path content)

namespace World

variable {w v : World}

/-- A world with a fresh cache, over a store that nobody else uses, that answers at once and that
has its first root folder still. Changing the working directory lists nothing. -/
structure Fresh (w : World) : Prop where
  cacheKept : w.cache < w.caches.length
  remoteKept : w.remote < w.remotes.length
  cache : w.cacheAt w.cache = .empty
  background : w.background = []
  quiet : w.settings.prefetchOnCd = false
  plain : (w.remoteAt w.remote).Plain
  built : (w.remoteAt w.remote).store.Built
  root : (w.remoteAt w.remote).store.HasRoot

/-- Whether the current cache tells nothing but what the current store would tell. -/
structure Coherent (w : World) : Prop where
  known : ∀ {path e}, (w.cacheAt w.cache).get? path = some e →
    (w.remoteAt w.remote).store.stat path = .ok e
  loaded : ∀ {folder}, (w.cacheAt w.cache).isLoaded folder →
    ∃ entries, (w.cacheAt w.cache).children? folder = some entries ∧
      (w.remoteAt w.remote).store.list folder = .ok entries

/-- Puts an empty cache in the place of the current one. -/
def renewCache (w : World) : World := w.setCache w.cache .empty

/-- A switch without another store begins afresh with an empty cache. -/
theorem Fresh.switchArea (fresh : w.Fresh) (area : Area) : (w.switchArea area none).Fresh where
  cacheKept := by simp [World.switchArea]
  remoteKept := fresh.remoteKept
  cache := by simp [World.switchArea, cacheAt]
  background := fresh.background
  quiet := fresh.quiet
  plain := fresh.plain
  built := fresh.built
  root := fresh.root

theorem Fresh.setCwd (fresh : w.Fresh) (path : String) : (w.setCwd path).Fresh :=
  ⟨fresh.cacheKept, fresh.remoteKept, fresh.cache, fresh.background, fresh.quiet, fresh.plain,
    fresh.built, fresh.root⟩

/-- A trial over a store that is filled with folders and files, and has its first root folder still,
starts in a fresh world. -/
theorem fresh_start {objects : List (String × Option Bytes)} (readOnly : Bool)
    {settings : Settings} (area : Option Area) (cwd : Option String)
    (root : (Trial.fill objects).HasRoot) (quiet : settings.prefetchOnCd = false) :
    (Trial.start { objects, readOnly } settings area cwd).Fresh := by
  have first : ({ settings, remotes := [Trial.Supply.remote { objects, readOnly }] } : World).Fresh :=
    ⟨Nat.zero_lt_one, Nat.zero_lt_one, rfl, rfl, quiet, ⟨rfl, rfl, rfl, rfl, rfl⟩,
      (Store.built_fill objects).protect readOnly, root⟩
  cases area with
  | none =>
    cases cwd with
    | none => exact first
    | some cwd => exact first.setCwd cwd
  | some area =>
    cases cwd with
    | none => exact first.switchArea area
    | some cwd => exact (first.switchArea area).setCwd cwd

/-- A fresh world owes its empty cache nothing. -/
theorem Fresh.owes (fresh : w.Fresh) :
    ({ w with cancelled := false } : World).Owes w.cache w.remote fun c => c where
  cacheIs := rfl
  remoteIs := rfl
  cacheKept := fresh.cacheKept
  remoteKept := fresh.remoteKept
  background := fresh.background
  live := rfl
  quiet := fresh.quiet
  plain := fresh.plain
  sound := fresh.built.sound
  root := fresh.root
  idle := by
    intro folder
    change (w.cacheAt w.cache).flight? folder = none
    rw [fresh.cache]
    rfl
  mirrors := by
    change (w.cacheAt w.cache).Mirrors (w.remoteAt w.remote).store
    rw [fresh.cache]
    exact Cache.mirrors_empty fresh.root

variable {strict : Bool} {cache remote : Nat}

/-- Taking a cancellation back owes the cache nothing. -/
theorem Owes.revive {f : Cache → Cache} (owes : w.Owes cache remote f) :
    ({ w with cancelled := false } : World).Owes cache remote f where
  cacheIs := owes.cacheIs
  remoteIs := owes.remoteIs
  cacheKept := owes.cacheKept
  remoteKept := owes.remoteKept
  background := owes.background
  live := rfl
  quiet := owes.quiet
  plain := owes.plain
  sound := owes.sound
  root := owes.root
  idle := owes.idle
  mirrors := owes.mirrors

/-- An empty cache in the place of the current one is owed nothing either. -/
theorem Owes.renewCache (owes : w.Owes cache remote fun c => c) :
    w.renewCache.Owes cache remote fun c => c := by
  rw [World.renewCache, owes.cacheIs]
  exact owes.toSteady.owes_setCache (fun _ => rfl) (Cache.mirrors_empty owes.root)

/-- A cache that mirrors the store tells nothing but what the store would tell. -/
theorem coherent_of_mirrors (sound : (w.remoteAt w.remote).store.Sound)
    (mirrors : (w.cacheAt w.cache).Mirrors (w.remoteAt w.remote).store) : w.Coherent := by
  refine ⟨fun {path e} known => ?_, fun {folder} loaded => ?_⟩
  · obtain ⟨o, here, rfl⟩ := mirrors.entry known
    simp only [Store.stat, here]
  · obtain ⟨names, listed⟩ := Option.isSome_iff_exists.mp loaded
    obtain ⟨entries, told, done⟩ := mirrors.children?_eq sound (isNormal_normalize folder) listed
    refine ⟨entries, ?_, ?_⟩
    · rwa [Cache.children?, normalize_normalize] at told
    · rwa [Store.list_normalize] at done

/-- Between two lines the cache is coherent. -/
theorem Owes.coherent (owes : w.Owes cache remote fun c => c) : w.Coherent := by
  rw [← owes.cacheIs, ← owes.remoteIs] at owes
  exact coherent_of_mirrors owes.sound owes.mirrors

end World

/-! ### Sessions -/

section Sessions

variable {strict : Bool} {cache remote : Nat} {before before' : World → World}

/-- Sessions whose worlds are matched before the first line stay matched line by line. -/
theorem session_matched
    (keeps : ∀ w v, Matched strict cache remote w v →
      Matched strict cache remote { before w with cancelled := false }
        { before' v with cancelled := false })
    {lines : List (String × Outlets)}
    (quiet : ¬ strict → ∀ line ∈ lines, Undisturbed line.1)
    {w v : World} (matched : Matched strict cache remote { before w with cancelled := false }
      { before' v with cancelled := false }) :
    Option.Rel (List.Forall₂ (SameEnd (MatchedStages strict cache remote)))
      (session Registry.standard before lines w) (session Registry.standard before' lines v) := by
  induction lines generalizing w v with
  | nil => exact .some .nil
  | cons first rest ih =>
    obtain ⟨line, outlets⟩ := first
    have stages : MatchedStages strict cache remote
        ⟨{ before w with cancelled := false }, outlets⟩
        ⟨{ before' v with cancelled := false }, outlets⟩ :=
      ⟨matched, rfl, rfl, rfl, rfl, fun _ => rfl⟩
    have ends := keeps_runLine line (fun loose => quiet loose _ (List.mem_cons_self ..)) _ _ stages
    rw [session, session]
    generalize runLine Registry.standard line ⟨{ before w with cancelled := false }, outlets⟩ = x,
      runLine Registry.standard line ⟨{ before' v with cancelled := false }, outlets⟩ = y at ends
    cases ends with
    | none => exact .none
    | @some p q related =>
      obtain ⟨verdict, stage⟩ := p
      obtain ⟨verdict', stage'⟩ := q
      have later := ih (fun loose other member => quiet loose other (List.mem_cons_of_mem _ member))
        (keeps _ _ related.2.worlds)
      simp only [Option.bind_eq_bind, Option.bind_some]
      generalize session Registry.standard before rest stage.world = x,
        session Registry.standard before' rest stage'.world = y at later
      cases later with
      | none => exact .none
      | some more => exact .some (.cons related more)

/-- After every line of a session, whatever it did and however it ended, the cache tells nothing but
what the store would tell. -/
theorem session_coherent {w : World} (fresh : w.Fresh) {lines : List (String × Outlets)}
    {results : List (Verdict × Stage)}
    (ran : session Registry.standard id lines w = some results) :
    ∀ result ∈ results, result.2.world.Coherent := by
  have start : Matched true w.cache w.remote { w with cancelled := false }
      { w with cancelled := false } :=
    ⟨⟨fresh.owes, fresh.owes, rfl, rfl, rfl⟩, fun _ => rfl⟩
  have keeps : ∀ u v, Matched true w.cache w.remote u v → Matched true w.cache w.remote
      { id u with cancelled := false } { id v with cancelled := false } :=
    fun u v matched => ⟨⟨matched.twins.left.revive, matched.twins.right.revive, matched.twins.cwd,
      matched.twins.settings, matched.twins.store⟩, fun equal => by rw [matched.one equal]⟩
  have ends : Option.Rel _ (session Registry.standard id lines w) _ :=
    session_matched keeps (fun loose => absurd rfl loose) start
  rw [ran] at ends
  cases ends with
  | some related =>
    intro result member
    exact ((List.forall₂_same.mp related) result member).2.worlds.twins.left.coherent

/-- A session that makes, writes, lists, moves and removes is one of them. -/
theorem session_coherent_of_changes : ∃ results, session Registry.standard id
    [("mkdir -p /a/b", .willing), ("echo x > /a/f", .willing), ("ls /a", .willing),
      ("mv /a/f /a/b", .willing), ("rm -r /a/b", .willing)]
    (Trial.start { objects := [("/c/d", none)] } { prefetchOnCd := false } none none) =
      some results ∧ ∀ result ∈ results, result.2.world.Coherent := by
  obtain ⟨results, ran⟩ := Option.isSome_iff_exists.mp (by decide +kernel :
    (session Registry.standard id
      [("mkdir -p /a/b", .willing), ("echo x > /a/f", .willing), ("ls /a", .willing),
        ("mv /a/f /a/b", .willing), ("rm -r /a/b", .willing)]
      (Trial.start { objects := [("/c/d", none)] } { prefetchOnCd := false } none none)).isSome)
  refine ⟨results, ran, session_coherent (World.fresh_start false none none ?_ rfl) ran⟩
  exact ⟨.folder "" 0 0, by decide +kernel, rfl⟩

/-- What a line shows of itself: what it wrote to the output, its verdict, and the store that it
left. -/
structure Trace where
  output : Bytes
  verdict : Verdict
  store : Store

/-- What is to be seen of a line that ended on a stage. -/
def traceOf (result : Verdict × Stage) : Trace where
  output := result.2.outlets.callers.out.received.bytes
  verdict := result.1
  store := (result.2.world.remoteAt result.2.world.remote).store

private theorem traceOf_eq {result result' : Verdict × Stage}
    (same : SameEnd (MatchedStages strict cache remote) result result') :
    traceOf result = traceOf result' := by
  obtain ⟨verdict, worlds, outlets⟩ := same
  have twins := worlds.twins
  have stores : (result.2.world.remoteAt result.2.world.remote).store =
      (result'.2.world.remoteAt result'.2.world.remote).store := by
    rw [twins.left.remoteIs, twins.right.remoteIs, twins.store]
  rw [traceOf, traceOf, verdict, outlets.out, stores]

private theorem map_traceOf_eq {results results' : List (Verdict × Stage)}
    (same : List.Forall₂ (SameEnd (MatchedStages strict cache remote)) results results') :
    results.map traceOf = results'.map traceOf := by
  induction same with
  | nil => rfl
  | cons first _ ih => rw [List.map_cons, List.map_cons, traceOf_eq first, ih]

/-- A session that keeps its cache shows what one shows that starts every line with an empty cache,
line by line, as long as no line redirects error output. -/
theorem session_renewCache {w : World} (fresh : w.Fresh) {lines : List (String × Outlets)}
    (quiet : ∀ line ∈ lines, Undisturbed line.1) :
    (session Registry.standard id lines w).map (·.map traceOf) =
      (session Registry.standard World.renewCache lines w).map (·.map traceOf) := by
  have start : Matched false w.cache w.remote { w with cancelled := false }
      { w.renewCache with cancelled := false } := by
    have same : w.renewCache = w := by
      rw [World.renewCache, ← fresh.cache, World.setCache_self]
    rw [same]
    exact ⟨⟨fresh.owes, fresh.owes, rfl, rfl, rfl⟩, fun _ => rfl⟩
  have keeps : ∀ u v, Matched false w.cache w.remote u v → Matched false w.cache w.remote
      { id u with cancelled := false } { v.renewCache with cancelled := false } :=
    fun u v matched => ⟨⟨matched.twins.left.revive, matched.twins.right.renewCache.revive,
      matched.twins.cwd, matched.twins.settings, matched.twins.store⟩,
      fun equal => absurd equal Bool.false_ne_true⟩
  have ends : Option.Rel _ (session Registry.standard id lines w)
      (session Registry.standard World.renewCache lines w) :=
    session_matched keeps (fun _ => quiet) start
  generalize session Registry.standard id lines w = x,
    session Registry.standard World.renewCache lines w = y at ends
  cases ends with
  | none => rfl
  | some related =>
    rw [Option.map_some, Option.map_some, map_traceOf_eq related]

/-- Looking through a folder that was known and is a file by then shows the same either way. -/
theorem session_renewCache_of_changes :
    (session Registry.standard id
      [("ls /a", .willing), ("rm -r /a; echo x > /a", .willing), ("ls / | cat - /a", .willing)]
      (Trial.start { objects := [("/a/f", some [1])] } { prefetchOnCd := false } none none)).map
        (·.map traceOf) =
      (session Registry.standard World.renewCache
        [("ls /a", .willing), ("rm -r /a; echo x > /a", .willing), ("ls / | cat - /a", .willing)]
        (Trial.start { objects := [("/a/f", some [1])] } { prefetchOnCd := false } none none)).map
          (·.map traceOf) := by
  refine session_renewCache (World.fresh_start false none none ?_ rfl) ?_
  · exact ⟨.folder "" 0 0, by decide +kernel, rfl⟩
  · simp only [List.forall_mem_cons, List.not_mem_nil, false_implies, implies_true, and_true]
    exact ⟨by decide +kernel, by decide +kernel, by decide +kernel⟩

end Sessions

end StoreShell
