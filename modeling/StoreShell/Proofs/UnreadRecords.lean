import StoreShell.Proofs.ConfinedScripts
import StoreShell.Proofs.Looking

/-! # Records that nobody reads

A service records the calls that are made to it, and no request is answered from these records. So
two worlds that differ in their records alone answer every request alike, and differ in nothing else
afterwards. What is `Prompt` asks the world and writes, and does nothing else: from two such worlds
it runs alike, and it always ends.
-/

namespace StoreShell

variable {α β : Type}

/-- A service without the record of the calls that were made. -/
def Remote.unrecorded (r : Remote) : Remote := { r with calls := [] }

/-- A world without the records of the calls that were made. -/
def World.unrecorded (w : World) : World := { w with remotes := w.remotes.map Remote.unrecorded }

def Scene.unrecorded (s : Scene) : Scene := { s with world := s.world.unrecorded }

/-- Runs a script to its end, and drops the records of the calls that were made. -/
def Script.runUnrecorded? (s : Script α) (scene : Scene) : Option (α × Scene) :=
  (s.run? scene).map fun (a, scene) => (a, scene.unrecorded)

/-! ### Requests -/

namespace Remote

/-- Whether a service does something alike whatever it has recorded. -/
def Blind (f : Remote → α × Remote) : Prop :=
  ∀ r, (f r.unrecorded).1 = (f r).1 ∧ (f r.unrecorded).2.unrecorded = (f r).2.unrecorded

/-- The answer to a question does not depend on the record of calls. -/
theorem blind_query (call : Call) (look : Store → Except Failure α) :
    Blind (·.query call look) := by
  intro r
  simp only [query, receive, unrecorded]
  rcases Fault.take call r.faults with ⟨_ | failure, faults⟩ <;> exact ⟨rfl, rfl⟩

/-- Whether and how a store is changed does not depend on the record of calls. -/
theorem blind_change (call : Call) (act : Store.Edit α) : Blind (·.change call act) := by
  intro r
  simp only [change, receive, unrecorded]
  rcases Fault.take call r.faults with ⟨_ | failure, faults⟩ <;> exact ⟨rfl, rfl⟩

theorem blind_upload (path : String) (content : Bytes) (append : Bool) :
    Blind (·.upload path content append) := by
  cases append with
  | true => exact blind_change (.append path content.length) (.append path content)
  | false => exact blind_change (.write path content.length) (.write path content)

end Remote

namespace World

@[simp] theorem unrecorded_unrecorded (w : World) : w.unrecorded.unrecorded = w.unrecorded := by
  simp only [unrecorded, List.map_map]
  rfl

theorem remoteAt_unrecorded (w : World) (id : Nat) :
    w.unrecorded.remoteAt id = (w.remoteAt id).unrecorded := by
  rw [remoteAt, remoteAt, unrecorded, List.getElem?_map]
  cases w.remotes[id]? <;> rfl

theorem unrecorded_setRemote (w : World) (id : Nat) (r : Remote) :
    (w.setRemote id r).unrecorded = w.unrecorded.setRemote id r.unrecorded := by
  simp only [setRemote, unrecorded, List.map_set]

/-- A blind service does the same in a world without records. -/
theorem unrecorded_onRemote {f : Remote → α × Remote} (blind : Remote.Blind f) (w : World)
    (id : Nat) : (w.unrecorded.onRemote id f).1 = (w.onRemote id f).1 ∧
      (w.unrecorded.onRemote id f).2.unrecorded = (w.onRemote id f).2.unrecorded := by
  obtain ⟨answer, after⟩ := blind (w.remoteAt id)
  simp only [onRemote, remoteAt_unrecorded, unrecorded_setRemote, unrecorded_unrecorded, answer,
    after, and_self]

/-- No request is answered from the records of calls. -/
theorem answer_unrecorded (w : World) (r : Request) :
    (w.unrecorded.answer r).1 = (w.answer r).1 ∧
      (w.unrecorded.answer r).2.unrecorded = (w.answer r).2.unrecorded := by
  -- Requests that are no calls do not see the services at all.
  have aside (same : w.unrecorded.answer r = ((w.answer r).1, (w.answer r).2.unrecorded)) :
      (w.unrecorded.answer r).1 = (w.answer r).1 ∧
        (w.unrecorded.answer r).2.unrecorded = (w.answer r).2.unrecorded := by
    rw [same]
    exact ⟨rfl, unrecorded_unrecorded _⟩
  cases r with
  | desk | enter | cancel | known | matching | note | forget | forgetStale => exact aside rfl
  | finishFetch cache folder entries => exact aside rfl
  | prefetch folder =>
    have same : w.unrecorded.cacheAt w.unrecorded.cache = w.cacheAt w.cache := rfl
    refine aside ?_
    rw [answer, answer, prefetch, prefetch, same]
    rcases (w.cacheAt w.cache).beginFetch (Path.normalize folder) with ⟨_ | _, c⟩ <;> rfl
  | stat | read => exact w.unrecorded_onRemote (Remote.blind_query _ _) _
  | upload remote path content append =>
    exact w.unrecorded_onRemote (Remote.blind_upload path content append) remote
  | makeFolder | remove | rename => exact w.unrecorded_onRemote (Remote.blind_change _ _) _

end World

/-! ### Scripts -/

namespace Script

/-- Whether something that a script does is a question to the world, or is to write. -/
def Doing.IsPrompt : Doing → Prop
  | .ask _ | .write .. => True
  | _ => False

/-- Whether a script asks the world and writes, and does nothing else. -/
abbrev Prompt (s : Script α) : Prop := s.Confined Doing.IsPrompt

variable {s : Script α} {scene scene' : Scene}

/-- What is prompt always ends. -/
theorem Prompt.exists_run? (prompt : s.Prompt) (scene : Scene) :
    ∃ a scene', s.run? scene = some (a, scene') := by
  induction prompt generalizing scene with
  | @done a => exact ⟨a, scene, rfl⟩
  | ask _ _ ih => exact ih _ _
  | write _ _ ih => exact ih _ _
  | claim other | list other | flush other | copy other | collect other | saved other
  | release other | hang other => cases other

/-- What is prompt runs alike where nothing is recorded. -/
theorem Prompt.runUnrecorded?_unrecorded (prompt : s.Prompt) (scene : Scene) :
    s.runUnrecorded? scene.unrecorded = s.runUnrecorded? scene := by
  induction prompt generalizing scene with
  | @done a =>
    change some (a, { scene with world := scene.world.unrecorded.unrecorded }) = _
    rw [World.unrecorded_unrecorded]
    rfl
  | @ask r next _ _ ih =>
    obtain ⟨answer, after⟩ := scene.world.answer_unrecorded r
    change (next (scene.world.unrecorded.answer r).1).runUnrecorded?
      { scene with world := (scene.world.unrecorded.answer r).2 } =
        (next (scene.world.answer r).1).runUnrecorded?
          { scene with world := (scene.world.answer r).2 }
    rw [answer, ← ih, ← ih _ { scene with world := (scene.world.answer r).2 }]
    exact congrArg (fun world => (next _).runUnrecorded? { scene with world }) after
  | @write dest bytes next _ _ ih =>
    have wrote : scene.unrecorded.write dest bytes =
        ((scene.write dest bytes).1, (scene.write dest bytes).2.unrecorded) := by
      rw [Scene.write, Scene.write]
      split <;> rfl
    rw [runUnrecorded?, run?, wrote]
    exact ih _ _
  | claim other | list other | flush other | copy other | collect other | saved other
  | release other | hang other => cases other

/-- What is prompt runs alike in scenes that differ in the records of calls alone. -/
theorem Prompt.runUnrecorded?_congr (prompt : s.Prompt)
    (alike : scene.unrecorded = scene'.unrecorded) :
    s.runUnrecorded? scene = s.runUnrecorded? scene' := by
  rw [← prompt.runUnrecorded?_unrecorded scene, alike, prompt.runUnrecorded?_unrecorded]

end Script

namespace Task

theorem prompt_print (dest : Output) (text : String) : (print dest text).toScript.Prompt :=
  .write trivial fun _ => .done

theorem prompt_resolve (path : String) : (resolve path).toScript.Prompt :=
  (confined_ask trivial).andThen fun _ => confined_pure _

theorem prompt_forget (path : String) : (forget path).toScript.Prompt :=
  (confined_ask trivial).andThen fun _ => confined_ask trivial

end Task

end StoreShell
