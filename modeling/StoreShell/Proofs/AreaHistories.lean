import StoreShell.Proofs.Crews
import StoreShell.Proofs.Loaders
import StoreShell.Proofs.LoyalCommands

/-! # Histories of storage areas

A history is what a crew comes to while nobody else writes to its caches. It keeps in mind what remote
stores have told, and which cache and which store were current together.

The storage area may be switched at any moment. A new remote store comes only if a condition on the
crew allows it: that everything under way waits (`Crew.Waits`), or that nothing waits for a folder to
be made or for an object to be moved either (`Crew.IsSettled`).
-/

namespace StoreShell

/-- What a store tells when a listing goes on. -/
def World.tellings (w : World) (l : Listing) : List Telling :=
  match (w.advance l).1 with
  | .inl _ => []
  | .inr answer => Telling.ofListing l.remote l.folder answer

/-- Whether a world has the caches of another one and what was current there, with as many remote
stores, none of which has anything happen to a cache while it lists a folder. -/
structure World.KeepsAreas (w w' : World) : Prop where
  caches : w'.caches = w.caches
  pairing : w'.pairing = w.pairing
  background : w'.background = w.background
  remotes : w'.remotes.length = w.remotes.length
  quiet : (∀ r ∈ w.remotes, r.churn = []) → ∀ r ∈ w'.remotes, r.churn = []

namespace Script

/-- What a store tells when a script goes on. -/
def tellings (w : World) : Script α → List Telling
  | .ask r _ => r.tellings (w.answer r).1
  | .list l _ => w.tellings l
  | _ => []

/-- Whether a script waits for a folder to be made or for an object to be moved. -/
def awaitsChange : Script α → Bool
  | .ask (.makeFolder ..) _ | .ask (.rename ..) _ => true
  | _ => false

end Script

/-! ### What happens to crews -/

/-- The pieces of work that may begin. The redirections that are closed were opened before, so each
leads to a store that was current together with the cache that takes note. -/
inductive Work.Starts (r : Registry) (pairings : List Pairing) (w : World) : Work → Prop where
  | preparation (p : Pipeline) : Starts r pairings w (.of false (Prepared.ofPipeline p).toScript)
  | command {name command} (args : List String) : r.get? name = some command →
      Starts r pairings w (.of true (command args).toScript)
  | closing {wiring : Execution.Wiring} (verdict : Verdict) :
      (∀ r ∈ wiring.redirects, r.2.Within pairings) →
      Starts r pairings w (.of false (Execution.closing wiring verdict))
  | children (folder : String) :
      Starts r pairings w (.of false (Task.ensureChildren w.cache w.remote folder).toScript)
  | preload (folder : String) (depth : Nat) :
      Starts r pairings w (.of false (Task.preload w.cache w.remote folder depth).toScript)

/-- What starts in a history begins in a crew. -/
theorem Work.Starts.begins {r : Registry} {pairings : List Pairing} {w : World} {work : Work}
    (starts : work.Starts r pairings w) : work.Begins r w := by
  cases starts with
  | preparation p => exact .preparation p
  | command args found => exact .command args found
  | closing verdict within => exact .closing _ verdict
  | children folder => exact .children folder
  | preload folder depth => exact .preload folder depth

namespace Crew

/-- Whether everything under way waits. -/
def Waits (s : Crew) : Prop := ∀ work ∈ s.works, work.script.mayWait

/-- Whether everything under way waits, and not for a folder to be made or an object to be moved. -/
structure IsSettled (s : Crew) : Prop where
  waits : s.Waits
  unchanging : ∀ work ∈ s.works, work.script.awaitsChange = false

/-- One thing that happens to a crew whose caches nobody else writes to, with what stores tell. -/
inductive Happens (r : Registry) (may : Crew → Prop) (pairings : List Pairing) :
    Crew → List Telling → Crew → Prop where
  | begin {w before after work} : work.Starts r pairings w →
      Happens r may pairings ⟨w, before ++ after⟩ [] ⟨w, before ++ work :: after⟩
  | go {w w' before after isCommand s s'} : Script.Step w s w' s' →
      Happens r may pairings ⟨w, before ++ ⟨isCommand, s⟩ :: after⟩ (s.tellings w)
        ⟨w', before ++ ⟨isCommand, s'⟩ :: after⟩
  | finish {w before after isCommand} :
      Happens r may pairings ⟨w, before ++ ⟨isCommand, .done ()⟩ :: after⟩ [] ⟨w, before ++ after⟩
  | drop {w before after s} : s.mayWait →
      Happens r may pairings ⟨w, before ++ ⟨true, s⟩ :: after⟩ [] ⟨w, before ++ after⟩
  | prefetch {w works} (folder) :
      Happens r may pairings ⟨w, works⟩ [] ⟨(w.prefetch folder).2, works⟩
  | background {w works before p after} : w.background = before ++ p :: after →
      Happens r may pairings ⟨w, works⟩
        (({ w with background := before ++ after } : World).tellings p.listing)
        ⟨{ w with background := before ++ after }.runPrefetch p, works⟩
  | switch {w works area remote} : (remote.isSome → may ⟨w, works⟩) →
      (∀ r ∈ remote, r.churn = []) →
      Happens r may pairings ⟨w, works⟩ [] ⟨w.switchArea area remote, works⟩
  /-- Time passes, a line is cancelled or not any more, or somebody changes a store. -/
  | elsewhere {w w' works} : w.KeepsAreas w' → Happens r may pairings ⟨w, works⟩ [] ⟨w', works⟩

/-- Any number of things that happen to a crew one after the other, with all that stores have told on
the way and with all that was current together, the latest first. -/
inductive History (r : Registry) (may : Crew → Prop) (s : Crew) :
    List Telling → List Pairing → Crew → Prop where
  | start : History r may s [] [s.world.pairing] s
  | step {t u told pairings news} : History r may s told pairings t →
      Happens r may pairings t news u →
      History r may s (news ++ told) (u.world.pairing :: pairings) u

variable {r : Registry} {may : Crew → Prop} {s t : Crew} {pairings : List Pairing}
  {news : List Telling}

/-- Whatever happens is a step of the crew. -/
theorem Happens.step (happens : Happens r may pairings s news t) : ∃ dropped, Step r s dropped t := by
  cases happens with
  | begin starts => exact ⟨_, .begin starts.begins⟩
  | go step => exact ⟨_, .go step⟩
  | finish => exact ⟨_, .finish⟩
  | drop waits => exact ⟨_, .drop waits⟩
  | prefetch folder => exact ⟨_, .prefetch folder⟩
  | background found => exact ⟨_, .background found⟩
  | switch => exact ⟨_, .switch _ _⟩
  | elsewhere keeps =>
    exact ⟨_, .elsewhere keeps.caches (congrArg Pairing.cache keeps.pairing) keeps.background⟩

end Crew

/-! ### Turns -/

namespace Script

variable {α : Type}

/-- Whether a script goes on by itself, without its streams. -/
def goesOn (w : World) : Script α → Bool
  | .ask .. | .list .. => true
  | .claim cache folder _ => (w.claim? cache folder).isSome
  | _ => false

/-- A script that goes on by itself takes a step, which is its turn. -/
theorem step_turn {w : World} {s : Script α} (goes : s.goesOn w) :
    Step w s (s.turn w).1 (s.turn w).2 := by
  cases s with
  | ask => exact .ask
  | claim cache folder next =>
    obtain ⟨⟨children, v⟩, claimed⟩ := Option.isSome_iff_exists.mp goes
    rw [turn, claimed]
    exact .claim claimed
  | list l next =>
    rw [turn]
    split
    · next goesOn => exact .list goesOn
    · next answered => exact .listed answered
  | _ => cases goes

/-- A script has so many turns by itself: the world, all that was told, and what is left. -/
def turns? : Nat → World → List Telling → Script α → Option (World × List Telling × Script α)
  | 0, w, told, s => some (w, told, s)
  | n + 1, w, told, s =>
    if s.goesOn w then turns? n (s.turn w).1 (s.tellings w ++ told) (s.turn w).2 else none

end Script

/-- A piece of work has some turns. -/
theorem Crew.History.turns {r : Registry} {may : Crew → Prop} {first : Crew} {w w' : World}
    {before after : List Work} {isCommand : Bool} {s s' : Script Unit} {pairings : List Pairing}
    {told told' : List Telling}
    (history : History r may first told pairings ⟨w, before ++ ⟨isCommand, s⟩ :: after⟩) {n : Nat}
    (goes : s.turns? n w told = some (w', told', s')) :
    ∃ more, pairings ⊆ more ∧
      History r may first told' more ⟨w', before ++ ⟨isCommand, s'⟩ :: after⟩ := by
  induction n generalizing w s told pairings with
  | zero =>
    cases goes
    exact ⟨pairings, .refl _, history⟩
  | succ n ih =>
    rw [Script.turns?] at goes
    split at goes
    · next here =>
      obtain ⟨more, known, history⟩ := ih (history.step (.go (Script.step_turn here))) goes
      exact ⟨more, List.Subset.trans (List.subset_cons_self ..) known, history⟩
    · cases goes

end StoreShell
