import StoreShell.Execution
import StoreShell.Proofs.Claims

/-! # Crews

A crew is everything that is under way in a session: the world with its listings in the background,
and pieces of work, which are what lines, loading and preloading consist of. Pieces of work begin at
any time and take turns in any order. A command may be dropped wherever it can be found waiting,
which is how a line is cancelled. So whatever a session does is a run of a crew.
-/

namespace StoreShell

open StoreShell.Path

namespace Script

/-- Whether a script calls the service, waits for it, for another script or for a stream, so that it
may be found waiting. -/
def mayWait : Script α → Bool
  | .ask r _ =>
    match r with
    | .stat .. | .read .. | .upload .. | .makeFolder .. | .remove .. | .rename .. => true
    | _ => false
  | .list l _ => l.due?.isSome
  | .claim .. | .write .. | .flush .. | .copy .. | .collect .. | .hang => true
  | .done _ | .saved .. | .release _ => false

/-- How a script goes on. Its streams may give and take anything. -/
inductive Step : World → Script α → World → Script α → Prop where
  | ask {w r next} : Step w (.ask r next) (w.answer r).2 (next (w.answer r).1)
  | claim {w w' cache folder next children} : w.claim? cache folder = some (children, w') →
      Step w (.claim cache folder next) w' (next children)
  | list {w w' l l' next} : w.advance l = (.inl l', w') → Step w (.list l next) w' (.list l' next)
  | listed {w w' l next answer} : w.advance l = (.inr answer, w') →
      Step w (.list l next) w' (next answer)
  | write {w dest bytes next} (a) : Step w (.write dest bytes next) w (next a)
  | writeOn {w dest bytes next} (left) :
      Step w (.write dest bytes next) w (.write dest left next)
  | flush {w dest next} (a) : Step w (.flush dest next) w (next a)
  | copy {w copying next} (a) : Step w (.copy copying next) w (next a)
  | copyOn {w copying next} (further) : Step w (.copy copying next) w (.copy further next)
  | collect {w room sofar next} (a) : Step w (.collect room sofar next) w (next a)
  | collectOn {w room sofar next} (left further) :
      Step w (.collect room sofar next) w (.collect left further next)
  | saved {w which next} (a) : Step w (.saved which next) w (next a)
  | release {w next} : Step w (.release next) w next

end Script

/-- A piece of work that is under way. Only commands are dropped when a line is cancelled. -/
structure Work where
  isCommand : Bool
  script : Script Unit

namespace Work

/-- A piece of work whose result is not looked at. -/
def of {α : Type} (isCommand : Bool) (s : Script α) : Work := ⟨isCommand, s.bind fun _ => .done ()⟩

/-- The pieces of work that may begin. A line consists of the preparations of its pipelines, their
commands, and what is done once these have ended. -/
inductive Begins (r : Registry) (w : World) : Work → Prop where
  | preparation (p : Pipeline) : Begins r w (.of false (Prepared.ofPipeline p).toScript)
  | command {name command} (args : List String) : r.get? name = some command →
      Begins r w (.of true (command args).toScript)
  | closing (wiring : Execution.Wiring) (verdict : Verdict) :
      Begins r w (.of false (Execution.closing wiring verdict))
  | children (folder : String) :
      Begins r w (.of false (Task.ensureChildren w.cache w.remote folder).toScript)
  | preload (folder : String) (depth : Nat) :
      Begins r w (.of false (Task.preload w.cache w.remote folder depth).toScript)

end Work

/-- What may be done to a cache from outside. -/
inductive Cache.Changes (c : Cache) : Cache → Prop where
  | add (e path) : c.Changes (c.add e path)
  | addChildren (folder entries) : c.Changes (c.addChildren folder entries)
  | invalidate (folder) : c.Changes (c.invalidate folder)
  | remove (path) : c.Changes (c.remove path)
  | clear : c.Changes c.clear

/-- Everything that is under way in a session. -/
structure Crew where
  world : World
  works : List Work := []

namespace Crew

/-- One thing that happens to a crew, with the scripts that are dropped by it. -/
inductive Step (r : Registry) : Crew → List (Script Unit) → Crew → Prop where
  | begin {w before after work} : work.Begins r w →
      Step r ⟨w, before ++ after⟩ [] ⟨w, before ++ work :: after⟩
  | go {w w' before after isCommand s s'} : Script.Step w s w' s' →
      Step r ⟨w, before ++ ⟨isCommand, s⟩ :: after⟩ [] ⟨w', before ++ ⟨isCommand, s'⟩ :: after⟩
  | finish {w before after isCommand} :
      Step r ⟨w, before ++ ⟨isCommand, .done ()⟩ :: after⟩ [] ⟨w, before ++ after⟩
  | drop {w before after s} : s.mayWait →
      Step r ⟨w, before ++ ⟨true, s⟩ :: after⟩ [s] ⟨w, before ++ after⟩
  | prefetch {w works} (folder) : Step r ⟨w, works⟩ [] ⟨(w.prefetch folder).2, works⟩
  | background {w works before p after} : w.background = before ++ p :: after →
      Step r ⟨w, works⟩ [] ⟨{ w with background := before ++ after }.runPrefetch p, works⟩
  | change {w works id c} : (w.cacheAt id).Changes c → Step r ⟨w, works⟩ [] ⟨w.setCache id c, works⟩
  | switch {w works} (area remote) : Step r ⟨w, works⟩ [] ⟨w.switchArea area remote, works⟩
  /-- Time passes, a line is cancelled or not any more, or somebody changes the store. -/
  | elsewhere {w w' works} : w'.caches = w.caches → w'.cache = w.cache →
      w'.background = w.background → Step r ⟨w, works⟩ [] ⟨w', works⟩

/-- Any number of things that happen to a crew one after the other, with all scripts that are dropped
on the way. -/
inductive Run (r : Registry) : Crew → List (Script Unit) → Crew → Prop where
  | refl {s} : Run r s [] s
  | step {s t u dropped more} : Run r s dropped t → Step r t more u → Run r s (dropped ++ more) u

/-- Whether somebody is going to give back the claim on a folder: its listing is in the background,
or a piece of work waits for it. -/
def Owned (s : Crew) (cache : Nat) (folder : String) : Prop :=
  (∃ p ∈ s.world.background, p.cache = cache ∧ p.listing.folder = folder) ∨
    ∃ work ∈ s.works, work.script.Holds cache folder

end Crew

end StoreShell
