import StoreShell.Cache
import StoreShell.Remote
import StoreShell.Settings

/-!
# The world of a shell

All state that commands share: the working directory, the caches and remote stores, of which one
each is current, listings that run in the background, and the time.

Switching the storage area puts a new cache in place of the current one, and possibly a new remote
store; work that has begun goes on with those it began with. So caches and remote stores are kept
and are referred to by number.

Nothing but waiting lets time pass. `World.advance` takes a listing as far as it gets at the present
time, `World.runBackground` does so with all listings in the background.
-/

namespace StoreShell

/-- How far a listing has come. -/
inductive ListingStage where
  /-- The service has not been called yet. -/
  | asked
  /-- The service is going to look at the folder at a time to come. -/
  | underWay (due : Nat)
  /-- The answer arrives at a time to come. -/
  | answered (answer : Except Failure (List Entry)) (due : Nat)

/-- A listing of a folder that has not ended. -/
structure Listing where
  /-- The number of the remote store that is asked. -/
  remote : Nat
  folder : String
  stage : ListingStage := .asked

/-- The time that a listing waits for, if it waits. -/
def Listing.due? (l : Listing) : Option Nat :=
  match l.stage with
  | .asked => none
  | .underWay due | .answered _ due => some due

/-- A listing in the background, for the cache with a number. -/
structure Prefetch where
  cache : Nat
  listing : Listing

/-- Everything that commands share. -/
structure World where
  /-- The working directory. -/
  cwd : String := Path.root
  area : Area := {}
  settings : Settings := {}
  caches : List Cache := [.empty]
  remotes : List Remote
  /-- The number of the current cache. -/
  cache : Nat := 0
  /-- The number of the current remote store. -/
  remote : Nat := 0
  background : List Prefetch := []
  clock : Nat := 0
  /-- Whether the line that runs has been cancelled. -/
  cancelled : Bool := false

namespace World

def cacheAt (w : World) (id : Nat) : Cache := w.caches[id]?.getD .empty

def remoteAt (w : World) (id : Nat) : Remote := w.remotes[id]?.getD { store := .empty }

def setCache (w : World) (id : Nat) (c : Cache) : World := { w with caches := w.caches.set id c }

def setRemote (w : World) (id : Nat) (r : Remote) : World :=
  { w with remotes := w.remotes.set id r }

def onCache (w : World) (id : Nat) (f : Cache → α × Cache) : α × World :=
  let (a, c) := f (w.cacheAt id)
  (a, w.setCache id c)

def onRemote (w : World) (id : Nat) (f : Remote → α × Remote) : α × World :=
  let (a, r) := f (w.remoteAt id)
  (a, w.setRemote id r)

def resolve (w : World) (path : String) : String := Path.resolve w.cwd path

def setCwd (w : World) (path : String) : World := { w with cwd := w.resolve path }

/-- Switches the storage area: a fresh cache, the root as working directory, and another remote
store if one is given. -/
def switchArea (w : World) (area : Area) (remote : Option Remote) : World :=
  let w := match remote with
    | none => w
    | some r => { w with remotes := w.remotes ++ [r], remote := w.remotes.length }
  { w with caches := w.caches ++ [.empty], cache := w.caches.length, area, cwd := Path.root }

/-- Lets one thing happen to the cache that goes with listing a folder. -/
def applyChurn (folder : String) (c : Cache) (churn : Churn) : Cache × Churn :=
  if churn.path = folder && churn.left ≠ some 0 then
    let used := churn.used + 1
    let c := match churn.action with
      | .add =>
        let name := s!"churn{used}"
        c.add ⟨name, .file, 0, 0, none⟩ (Path.join folder name)
      | .invalidate => c.invalidate folder
      | .clear => c.clear
    (c, { churn with left := churn.left.map (· - 1), used })
  else (c, churn)

def applyChurns (folder : String) (c : Cache) : List Churn → Cache × List Churn
  | [] => (c, [])
  | churn :: rest =>
    let (c, churn) := applyChurn folder c churn
    let (c, rest) := applyChurns folder c rest
    (c, churn :: rest)

/-- The answer to a listing arrives, after everything that goes with listing the folder. -/
def arrive (w : World) (l : Listing) : World :=
  let r := w.remoteAt l.remote
  let (c, churn) := applyChurns l.folder (w.cacheAt r.churned) r.churn
  (w.setCache r.churned c).setRemote l.remote { r with churn }

/-- The service is called: whether it is going to look at the folder. -/
def request (w : World) (l : Listing) : Except Failure Unit × World :=
  match (w.remoteAt l.remote).receive (.listFolder l.folder) with
  | (.error failure, r) => (.error failure, w.setRemote l.remote r)
  | (.ok _, r) => (.ok (), w.setRemote l.remote { r with listings := r.listings + 1 })

/-- When the service looks at a folder if it is called now. -/
def lookDue (w : World) (l : Listing) : Nat := w.clock + (w.remoteAt l.remote).listDelay

/-- What the service finds if it looks now. -/
def look (w : World) (l : Listing) : Except Failure (List Entry) :=
  (w.remoteAt l.remote).look l.folder

/-- When an answer arrives that is given now. -/
def answerDue (w : World) (l : Listing) : Nat := w.clock + (w.remoteAt l.remote).lateDelay

/-- What has become of a listing: it still waits, or it was answered. -/
abbrev ListingProgress := Listing ⊕ Except Failure (List Entry)

/-- Takes a listing as far as it gets once its answer is on its way. -/
def advanceAnswered (w : World) (l : Listing) (answer : Except Failure (List Entry)) (due : Nat) :
    ListingProgress × World :=
  if due ≤ w.clock then (.inr answer, w.arrive l)
  else (.inl { l with stage := .answered answer due }, w)

/-- Takes a listing as far as it gets once the service has been called. -/
def advanceUnderWay (w : World) (l : Listing) (due : Nat) : ListingProgress × World :=
  if due ≤ w.clock then w.advanceAnswered l (w.look l) (w.answerDue l)
  else (.inl { l with stage := .underWay due }, w)

/-- Takes a listing as far as it gets at the present time. -/
def advance (w : World) (l : Listing) : ListingProgress × World :=
  match l.stage with
  | .asked =>
    match w.request l with
    | (.error failure, w) => (.inr (.error failure), w)
    | (.ok _, w) => w.advanceUnderWay l (w.lookDue l)
  | .underWay due => w.advanceUnderWay l due
  | .answered answer due => w.advanceAnswered l answer due

/-- Whether a listing can do nothing but wait at the present time. -/
def isWaiting (w : World) (l : Listing) : Bool :=
  l.due?.any (w.clock < ·)

/-- Takes one listing in the background as far as it gets. -/
def runPrefetch (w : World) (p : Prefetch) : World :=
  match w.advance p.listing with
  | (.inl listing, w) => { w with background := w.background ++ [{ p with listing }] }
  | (.inr answer, w) =>
    (w.onCache p.cache (·.finishFetch p.listing.folder answer.toOption)).2

/-- Takes all listings in the background as far as they get. -/
def runBackground (w : World) : World :=
  w.background.foldl runPrefetch { w with background := [] }

def nextDue? (w : World) : Option Nat :=
  (w.background.filterMap fun p => p.listing.due?).min?

/-- How many times the background can make progress at most. -/
def backgroundTurns (w : World) : Nat := 3 * w.background.length + 1

/-- Waits for a time, while the background goes on. What is due at that very time has to wait. -/
def waitUntilIn (time : Nat) : Nat → World → World
  | 0, w => { w with clock := max w.clock time }
  | turns + 1, w =>
    let w := w.runBackground
    match w.nextDue? with
    | none => { w with clock := max w.clock time }
    | some due =>
      if due < time then waitUntilIn time turns { w with clock := max w.clock due }
      else { w with clock := max w.clock time }

/-- Waits for a time, while the background goes on. There is no waiting for a time that has come. -/
def waitUntil (w : World) (time : Nat) : World :=
  if time ≤ w.clock then w else waitUntilIn time w.backgroundTurns w

/-- The known children of a folder, or that its listing is now claimed; none if another listing of
the folder is on its way. -/
def claim? (w : World) (cache : Nat) (folder : String) : Option (Option (List Entry) × World) :=
  let c := w.cacheAt cache
  match c.children? folder with
  | some children => some (some children, w)
  | none =>
    match c.beginFetch folder with
    | (true, c) => some (none, w.setCache cache c)
    | (false, _) => none

/-- Waits until a folder is known or can be claimed; none if that never happens. -/
def awaitClaimIn (cache : Nat) (folder : String) :
    Nat → World → Option (Option (List Entry) × World)
  | 0, w => w.claim? cache folder
  | turns + 1, w =>
    match w.claim? cache folder with
    | some claimed => some claimed
    | none =>
      let w := w.runBackground
      match w.claim? cache folder with
      | some claimed => some claimed
      | none =>
        match w.nextDue? with
        | none => none
        | some due => awaitClaimIn cache folder turns { w with clock := max w.clock due }

/-- Waits until a folder is known or can be claimed. -/
def awaitClaim (w : World) (cache : Nat) (folder : String) :
    Option (Option (List Entry) × World) :=
  awaitClaimIn cache folder w.backgroundTurns w

/-- Waits for the answer to a listing, once it is on its way. -/
def awaitAnswered (w : World) (l : Listing) (answer : Except Failure (List Entry)) (due : Nat) :
    Except Failure (List Entry) × World :=
  (answer, (w.waitUntil due).arrive l)

/-- Waits for the answer to a listing, once the service has been called. -/
def awaitUnderWay (w : World) (l : Listing) (due : Nat) : Except Failure (List Entry) × World :=
  let w := w.waitUntil due
  w.awaitAnswered l (w.look l) (w.answerDue l)

/-- Waits for the answer to a listing, while the background goes on. -/
def awaitListing (w : World) (l : Listing) : Except Failure (List Entry) × World :=
  match l.stage with
  | .asked =>
    match w.request l with
    | (.error failure, w) => (.error failure, w)
    | (.ok _, w) => w.awaitUnderWay l (w.lookDue l)
  | .underWay due => w.awaitUnderWay l due
  | .answered answer due => w.awaitAnswered l answer due

/-- Begins to list a folder in the background, unless its children are known or its listing is on
its way. -/
def prefetch (w : World) (folder : String) : Bool × World :=
  let folder := Path.normalize folder
  match (w.cacheAt w.cache).beginFetch folder with
  | (false, _) => (false, w)
  | (true, c) =>
    let w := w.setCache w.cache c
    (true, { w with background := w.background ++ [⟨w.cache, w.remote, folder, .asked⟩] })

end World

end StoreShell
