import StoreShell.Children
import StoreShell.Proofs.ListingsApart
import StoreShell.Proofs.Marks

/-! # Loaders that share a cache

Loaders get the children of folders, or of whole trees of folders, through one cache from one remote
store, while other folders are listed in the background and others change the cache. A `Pool` is all
of them together. Any of them may have the next turn, so an order in which things happen is a list of
moves, and one that is not possible at the time, such as a turn of a loader that has to wait, leaves
everything as it is. `Pool.play` shows which calls were answered on the way and what the loaders
returned.

A script that loads folders does nothing but claim folders and list them, and holds one claim at a
time (`Script.Loads`).
-/

namespace StoreShell

open StoreShell.Path

/-! ### Pools -/

/-- Something to be seen of a pool. -/
inductive Pool.Event where
  /-- A listing of a folder was answered. -/
  | answered (folder : String) (answer : Except Failure (List Entry))
  /-- A loader that was to get the children of a folder has ended. -/
  | returned (folder : String) (result : Except Failure (List Entry))

/-- What is to be seen of a listing that goes on. -/
def World.answersOf (w : World) (l : Listing) : List Pool.Event :=
  match (w.advance l).1 with
  | .inl _ => []
  | .inr answer => [.answered l.folder answer]

namespace Script

/-- Lets a script go on by one step. A script that has to wait stays as it is. -/
def turn (w : World) : Script α → World × Script α
  | .ask r next => ((w.answer r).2, next (w.answer r).1)
  | .claim cache folder next =>
    match w.claim? cache folder with
    | some (children, w) => (w, next children)
    | none => (w, .claim cache folder next)
  | .list l next =>
    match w.advance l with
    | (.inl l, w) => (w, .list l next)
    | (.inr answer, w) => (w, next answer)
  | s => (w, s)

/-- What is to be seen of a script that goes on by one step. -/
def answers (w : World) : Script α → List Pool.Event
  | .list l _ => w.answersOf l
  | _ => []

end Script

/-- A piece of work that loads folders. -/
inductive Loader where
  /-- It gets the children of a folder. -/
  | children (folder : String) (script : Script (Except Failure (List Entry)))
  /-- It lists a folder and what is below it. -/
  | preload (script : Script (Except Failure Nat))

def Loader.turn (w : World) : Loader → List Pool.Event × World × Option Loader
  | .children folder (.done result) => ([.returned folder result], w, none)
  | .children folder s => (s.answers w, (s.turn w).1, some (.children folder (s.turn w).2))
  | .preload (.done _) => ([], w, none)
  | .preload s => (s.answers w, (s.turn w).1, some (.preload (s.turn w).2))

/-- Loaders over the current cache and the current remote store of a world. -/
structure Pool where
  world : World
  loaders : List Loader := []

namespace Pool

/-- Something that happens to a pool. -/
inductive Move where
  /-- A loader begins that gets the children of a folder. -/
  | ensure (folder : String)
  /-- A loader begins that lists a folder and what is below it, so many levels deep. -/
  | preload (folder : String) (depth : Nat)
  /-- A folder is to be listed in the background. -/
  | prefetch (folder : String)
  /-- The loader at a place has its turn. -/
  | turn (place : Nat)
  /-- The listing at a place in the background has its turn. -/
  | background (place : Nat)
  /-- The cache is changed from outside. -/
  | change (o : Cache.Operation)
  /-- Time passes. -/
  | pass (duration : Nat)
  /-- From now on other calls fail. -/
  | disturb (faults : List Fault)
  /-- The remote store has another tree from now on. -/
  | replace (store : Store)

def onRemote (s : Pool) (f : Remote → Remote) : Pool :=
  { s with world := s.world.setRemote s.world.remote (f (s.world.remoteAt s.world.remote)) }

/-- Lets something happen to a pool: what is to be seen of it, and the pool after it. -/
def move (s : Pool) : Move → List Event × Pool
  | .ensure folder =>
    let script := (Task.ensureChildren s.world.cache s.world.remote folder).toScript
    ([], { s with loaders := s.loaders ++ [.children folder script] })
  | .preload folder depth =>
    let script := (Task.preload s.world.cache s.world.remote folder depth).toScript
    ([], { s with loaders := s.loaders ++ [.preload script] })
  | .prefetch folder => ([], { s with world := (s.world.prefetch folder).2 })
  | .turn place =>
    match s.loaders[place]? with
    | none => ([], s)
    | some l =>
      let (events, world, left) := l.turn s.world
      (events, ⟨world, s.loaders.take place ++ left.toList ++ s.loaders.drop (place + 1)⟩)
  | .background place =>
    match s.world.background[place]? with
    | none => ([], s)
    | some p =>
      let w := { s.world with background := s.world.background.eraseIdx place }
      (w.answersOf p.listing, { s with world := w.runPrefetch p })
  | .change o =>
    if o.isLocal then
      let c := s.world.cacheAt s.world.cache
      ([], { s with world := s.world.setCache s.world.cache (o.apply c) })
    else ([], s)
  | .pass duration => ([], { s with world := { s.world with clock := s.world.clock + duration } })
  | .disturb faults => ([], s.onRemote fun r => { r with faults })
  | .replace store => ([], s.onRemote fun r => { r with store })

def play (s : Pool) : List Move → List Event × Pool
  | [] => ([], s)
  | m :: rest => ((s.move m).1 ++ ((s.move m).2.play rest).1, ((s.move m).2.play rest).2)

end Pool

/-! ### Claims -/

/-- How somebody who loads folders stands with a claim. -/
inductive Claim where
  /-- None is held. -/
  | free
  /-- A folder is claimed, and its listing has come so far. -/
  | lists (folder : String) (stage : ListingStage)
  /-- A folder is claimed, and its listing was answered. -/
  | gives (folder : String) (answer : Except Failure (List Entry))

def Prefetch.claim (p : Prefetch) : Claim := .lists p.listing.folder p.listing.stage

/-- What may happen to a world and a claim when whoever holds the claim has a turn. -/
inductive World.Handles (cache remote : Nat) : World → Claim → World → Claim → Prop where
  | begin {w folder} : IsNormal folder → ((w.cacheAt cache).beginFetch folder).1 = true →
      Handles cache remote w .free (w.setCache cache ((w.cacheAt cache).beginFetch folder).2)
        (.lists folder .asked)
  | goesOn {w w' folder stage stage'} :
      w.advance ⟨remote, folder, stage⟩ = (.inl ⟨remote, folder, stage'⟩, w') →
      Handles cache remote w (.lists folder stage) w' (.lists folder stage')
  | answered {w w' folder stage answer} :
      w.advance ⟨remote, folder, stage⟩ = (.inr answer, w') →
      Handles cache remote w (.lists folder stage) w' (.gives folder answer)
  | finish {w folder answer} : Handles cache remote w (.gives folder answer)
      (w.setCache cache ((w.cacheAt cache).finishFetch folder answer.toOption).2) .free

/-! ### What loaders do -/

/-- How a listing goes on that is not answered yet: only its stage changes. -/
theorem World.exists_stage_of_advance {w w' : World} {l l' : Listing}
    (goesOn : w.advance l = (.inl l', w')) : ∃ stage, l' = { l with stage } := by
  have answered : ∀ {w : World} {answer due}, w.advanceAnswered l answer due = (.inl l', w') →
      ∃ stage, l' = { l with stage } := by
    intro w answer due goesOn
    rw [advanceAnswered] at goesOn
    split at goesOn
    · cases goesOn
    · cases goesOn
      exact ⟨_, rfl⟩
  have underWay : ∀ {w : World} {due}, w.advanceUnderWay l due = (.inl l', w') →
      ∃ stage, l' = { l with stage } := by
    intro w due goesOn
    rw [advanceUnderWay] at goesOn
    split at goesOn
    · exact answered goesOn
    · cases goesOn
      exact ⟨_, rfl⟩
  rw [advance] at goesOn
  split at goesOn
  · split at goesOn
    · cases goesOn
    · exact underWay goesOn
  · exact underWay goesOn
  · exact answered goesOn

section Loads

variable {α β : Type} {cache remote : Nat} {known : String → Option (List Entry) → Prop}
  {found : String → Except Failure (List Entry) → Prop} {ends : α → Prop} {ends' : β → Prop}
  {folder : String}

/-- How getting the children of a folder may end, if something is known of the children that a cache
tells, or does not tell because they went stale, and something of what is found by listing. -/
inductive Obtained (known : String → Option (List Entry) → Prop)
    (found : String → Except Failure (List Entry) → Prop) (folder : String) :
    Except Failure (List Entry) → Prop where
  | known {children} : known folder (some children) → Obtained known found folder (.ok children)
  | failed {failure} : found folder (.error failure) → Obtained known found folder (.error failure)
  | stale {entries} : found folder (.ok entries) → known folder none →
      Obtained known found folder (.ok (Task.sortByName entries))

namespace Script

/-- Whether a script does nothing but claim folders of a cache and list them, with a claim held to
begin with, and how it ends as long as it is told nothing but what is known and finds nothing but
what is found. -/
inductive Loads (cache remote : Nat) (known : String → Option (List Entry) → Prop)
    (found : String → Except Failure (List Entry) → Prop) (ends : α → Prop) :
    Claim → Script α → Prop where
  | done {a} : ends a → Loads cache remote known found ends .free (.done a)
  | claim {folder next} : IsNormal folder →
      (∀ children, known folder (some children) →
        Loads cache remote known found ends .free (next (some children))) →
      Loads cache remote known found ends (.lists folder .asked) (next none) →
      Loads cache remote known found ends .free (.claim cache folder next)
  | list {folder stage next} :
      (∀ answer, found folder answer →
        Loads cache remote known found ends (.gives folder answer) (next answer)) →
      Loads cache remote known found ends (.lists folder stage) (.list ⟨remote, folder, stage⟩ next)
  | finish {folder answer next} :
      (∀ told, known folder told → Loads cache remote known found ends .free (next told)) →
      Loads cache remote known found ends (.gives folder answer)
        (.ask (.finishFetch cache folder answer.toOption) next)

/-- What follows a script that has given its claim back begins without one. -/
theorem Loads.bind {c : Claim} {s : Script α} {f : α → Script β}
    (loads : Loads cache remote known found ends c s)
    (next : ∀ a, ends a → Loads cache remote known found ends' .free (f a)) :
    Loads cache remote known found ends' c (s.bind f) := by
  induction loads with
  | done ended => exact next _ ended
  | claim normal _ _ ih ih' => exact .claim normal ih ih'
  | list _ ih => exact .list ih
  | finish _ ih => exact .finish ih

end Script

open Script

/-- A task goes on with another one. -/
theorem loads_andThen {t : Task α} {f : α → Task β} {ends' : Except Failure β → Prop}
    (first : Loads cache remote known found (fun _ => True) .free t)
    (fails : ∀ failure, ends' (.error failure))
    (next : ∀ a, Loads cache remote known found ends' .free (f a)) :
    Loads cache remote known found ends' .free (t >>= f : Task β) := by
  refine Loads.bind first fun result _ => ?_
  cases result with
  | error failure => exact .done (fails failure)
  | ok a => exact next a

private theorem loads_listOnce (normal : IsNormal folder)
    {whenStale : List Entry → Script (Except Failure (List Entry))}
    (again : ∀ entries, found folder (.ok entries) → known folder none →
      Loads cache remote known found (Obtained known found folder) .free (whenStale entries)) :
    Loads cache remote known found (Obtained known found folder) .free
      (Task.listOnce cache remote folder whenStale) := by
  refine .claim normal (fun children told => .done (.known told)) (.list fun answer here => ?_)
  cases answer with
  | error failure => exact Loads.finish fun _ _ => .done (.failed here)
  | ok entries =>
    refine Loads.finish fun told this => ?_
    cases told with
    | some children => exact .done (.known this)
    | none => exact again entries here this

/-- An attempt to get the children of a folder claims it, calls the service, and gives the claim
back. -/
theorem loads_ensureChildren (cache remote : Nat) (folder : String) :
    Loads cache remote known found (Obtained known found (normalize folder)) .free
      (Task.ensureChildren cache remote folder).toScript := by
  have attempts : ∀ again, Loads cache remote known found (Obtained known found (normalize folder))
      .free (Task.ensureChildrenIn cache remote (normalize folder) again) := by
    intro again
    induction again with
    | zero =>
      exact loads_listOnce (isNormal_normalize folder) fun _ here stale => .done (.stale here stale)
    | succ again ih => exact loads_listOnce (isNormal_normalize folder) fun _ _ _ => ih
  exact attempts _

private theorem loads_preloadLevel (root : String) (folders : List String) :
    Loads cache remote known found (fun _ => True) .free
      (Task.preloadLevel cache remote root folders) := by
  induction folders with
  | nil => exact .done trivial
  | cons folder rest ih =>
    rw [Task.preloadLevel]
    have attempted : Loads cache remote known found (fun _ => True) .free
        (Task.attempt (Task.ensureChildren cache remote folder)).toScript :=
      (loads_ensureChildren cache remote folder).bind fun _ _ => .done trivial
    refine attempted.bind fun result _ => ?_
    cases result with
    | error failure => exact .done trivial
    | ok result =>
      cases result with
      | error failure =>
        by_cases top : folder = root
        · simp only [ExceptT.bindCont, if_pos top]
          exact .done trivial
        · simp only [ExceptT.bindCont, if_neg top]
          exact ih
      | ok children => exact loads_andThen ih (fun _ => trivial) fun _ => .done trivial

/-- Folders are loaded one after the other, each with a claim of its own. -/
theorem loads_preload (cache remote : Nat) (folder : String) (depth : Nat) :
    Loads cache remote known found (fun _ => True) .free
      (Task.preload cache remote folder depth).toScript := by
  have levels : ∀ root depth folders, Loads cache remote known found (fun _ => True) .free
      (Task.preloadLevels cache remote root depth folders) := by
    intro root depth
    induction depth with
    | zero => exact fun _ => .done trivial
    | succ depth ih =>
      intro folders
      cases folders with
      | nil => exact .done trivial
      | cons folder rest =>
        refine loads_andThen (loads_preloadLevel root _) (fun _ => trivial) fun found => ?_
        exact loads_andThen (ih found.2) (fun _ => trivial) fun _ => .done trivial
  exact levels _ _ _

end Loads

end StoreShell
