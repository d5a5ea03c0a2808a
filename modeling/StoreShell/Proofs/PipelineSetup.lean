import StoreShell.Proofs.Looking
import StoreShell.Trial

/-! # Setting up pipelines

Before a command of a pipeline runs, all commands are looked up, the redirections are opened and the
patterns are expanded. All of this looks around and no more: `Prepared.looks_ofPipeline`. So a
pipeline that fails before its commands run has no effect, whatever it had opened by then.
`SetupFails` tells how it can fail, one phase after the other.
-/

namespace StoreShell

open StoreShell.Task

variable {α β : Type}

/-! ### Opening redirections -/

namespace Redirect

private theorem looks_statIfAny (remote cache : Nat) (path : String) :
    Looks (statIfAny remote cache path) := by
  refine (looks_ask rfl).andThen fun known => ?_
  cases known with
  | some e => exact looks_pure _
  | none =>
    refine (looks_ask rfl).andThen fun found => ?_
    cases found with
    | ok e => exact looks_pure _
    | error failure =>
      dsimp only
      split
      · exact looks_pure _
      · exact looks_throw _

private theorem looks_statParent (remote cache : Nat) (path : String) :
    Looks (statParent remote cache path) := by
  refine (looks_ask rfl).andThen fun known => ?_
  cases known with
  | some e => exact looks_pure _
  | none => exact looks_request rfl fun _ => looks_of_except _

private theorem looks_checkTarget (remote cache : Nat) (path : String) :
    Looks (checkTarget remote cache path) := by
  refine (looks_statIfAny _ _ _).andThen fun found => ?_
  cases found with
  | some e =>
    dsimp only
    split
    · exact looks_throw _
    · exact looks_pure _
  | none =>
    dsimp only
    split
    · exact looks_throw _
    · refine (looks_statParent _ _ _).andThen fun e => ?_
      split
      · exact looks_throw _
      · exact looks_pure _

/-- Opening a redirection looks things up and changes no store. -/
theorem looks_open? (target : Target) : Looks (open? target) := by
  refine (looks_ask rfl).andThen fun desk => ?_
  dsimp only
  split
  · exact looks_pure _
  · exact (looks_checkTarget _ _ _).andThen fun _ => looks_pure _

end Redirect

theorem looks_openInput (path : String) : Looks (openInput path) := by
  refine (looks_ask rfl).andThen fun desk => ?_
  dsimp only
  split
  · exact looks_pure _
  · refine (looks_ask rfl).andThen fun known => ?_
    have reads : Looks (ofScript (.request (.read desk.remote (Path.resolve desk.cwd path)))) :=
      looks_request rfl fun _ => looks_of_except _
    split
    · exact (looks_throw _).andThen fun _ => reads
    · exact reads

/-! ### Expanding patterns -/

namespace Glob

variable {site : Site}

private theorem looks_load (pattern folder : String) : Looks (load site pattern folder) := by
  rw [load]
  refine (looks_ask rfl).andThen fun known => ?_
  split
  · exact looks_pure _
  · refine (looks_ensureChildren _ _ _).attempt.andThen fun result => ?_
    split
    · exact looks_pure _
    · exact looks_pure _
    · split
      · exact looks_pure _
      · exact looks_throw _

private theorem looks_exists? (pattern folder name : String) (needFolder : Bool) :
    Looks (exists? site pattern folder name needFolder) := by
  rw [exists?]
  split
  · exact looks_pure _
  · refine (looks_load _ _).andThen fun loaded => ?_
    split
    · exact looks_pure _
    · refine (looks_ask rfl).andThen fun known => ?_
      cases known <;> exact looks_pure _

private theorem looks_keepFolders (needFolder : Bool) (candidates : List Candidate) :
    Looks (keepFolders site needFolder candidates) := by
  induction candidates with
  | nil => exact looks_pure _
  | cons c rest ih =>
    rw [keepFolders]
    dsimp only
    split
    · exact (looks_ask rfl).andThen fun _ => ih.andThen fun _ => looks_pure _
    · exact (looks_pure _).andThen fun _ => ih.andThen fun _ => looks_pure _

private theorem looks_followLiteral (pattern name : String) (needFolder mustExist : Bool)
    (candidates : List Candidate) :
    Looks (followLiteral site pattern name needFolder mustExist candidates) := by
  induction candidates with
  | nil => exact looks_pure _
  | cons c rest ih =>
    rw [followLiteral]
    dsimp only
    split
    · exact (looks_exists? _ _ _ _).andThen fun _ => ih.andThen fun _ => looks_pure _
    · exact (looks_pure _).andThen fun _ => ih.andThen fun _ => looks_pure _

private theorem looks_followPattern (pattern component : String) (needFolder : Bool)
    (candidates : List Candidate) :
    Looks (followPattern site pattern component needFolder candidates) := by
  induction candidates with
  | nil => exact looks_pure _
  | cons c rest ih =>
    rw [followPattern]
    refine (looks_load _ _).andThen fun loaded => ?_
    dsimp only
    split
    · refine (looks_ask rfl).andThen fun paths => (looks_keepFolders _ _).andThen fun _ => ?_
      exact ih.andThen fun _ => looks_pure _
    · exact (looks_pure _).andThen fun _ => ih.andThen fun _ => looks_pure _

private theorem looks_followAll (pattern : String) (foldersOnly afterPattern : Bool)
    (components : List String) (candidates : List Candidate) :
    Looks (followAll site pattern foldersOnly afterPattern components candidates) := by
  induction components generalizing afterPattern candidates with
  | nil => exact looks_pure _
  | cons component rest ih =>
    rw [followAll]
    have goesOn : ∀ next, Looks (do
        if next.isEmpty then return []
        followAll site pattern foldersOnly (afterPattern || isPattern component) rest next :
        Task (List Candidate)) := by
      intro next
      split
      · exact looks_pure _
      · exact ih _ _
    dsimp only
    split
    · exact (looks_followPattern _ _ _ _).andThen goesOn
    · exact (looks_followLiteral _ _ _ _ _).andThen goesOn

/-- Expanding arguments lists folders and changes no store. -/
theorem looks_expand (words : List Word) : Looks (expand site words) := by
  induction words with
  | nil => exact looks_pure _
  | cons word rest ih =>
    rw [expand]
    dsimp only
    split
    · refine Looks.andThen ?_ fun _ => ih.andThen fun _ => looks_pure _
      exact (looks_followAll _ _ _ _ _).andThen fun _ => looks_pure _
    · exact (looks_pure _).andThen fun _ => ih.andThen fun _ => looks_pure _

end Glob

/-! ### Preparing a pipeline -/

namespace Prepared

private theorem looks_onSome {f : α → Task β} (a : Option α) (looks : ∀ a, Looks (f a)) :
    Looks (onSome a f) := by
  cases a with
  | none => exact looks_pure _
  | some a => exact (looks a).andThen fun _ => looks_pure _

private theorem looks_expandAll {site : Glob.Site} (segments : List Segment) :
    Looks (expandAll site segments) := by
  induction segments with
  | nil => exact looks_pure _
  | cons s rest ih => exact (Glob.looks_expand _).andThen fun _ => ih.andThen fun _ => looks_pure _

def openInputOf (p : Pipeline) : Task (Option Bytes) :=
  onSome (p.segments.head?.bind Segment.input) openInput

def openOutputOf (p : Pipeline) : Task (Option Redirect) :=
  onSome (p.segments.getLast?.bind Segment.output) Redirect.open?

def openErrorOf (p : Pipeline) : Task (Option Redirect) :=
  onSome (p.segments.getLast?.bind Segment.error) Redirect.open?

private theorem looks_openInputOf (p : Pipeline) : Looks (openInputOf p) :=
  looks_onSome _ looks_openInput

private theorem looks_openOutputOf (p : Pipeline) : Looks (openOutputOf p) :=
  looks_onSome _ Redirect.looks_open?

private theorem looks_openErrorOf (p : Pipeline) : Looks (openErrorOf p) :=
  looks_onSome _ Redirect.looks_open?

/-- The preparation of a pipeline looks around and no more. -/
theorem looks_ofPipeline (p : Pipeline) : Looks (ofPipeline p) := by
  refine (looks_openInputOf p).andThen fun input => ?_
  refine (looks_openOutputOf p).andThen fun output => ?_
  refine (looks_openErrorOf p).andThen fun error => ?_
  refine (looks_ask rfl).andThen fun desk => ?_
  exact (looks_expandAll _).andThen fun _ => looks_pure _

end Prepared

def World.site (w : World) : Glob.Site := ⟨w.cache, w.remote, w.cwd, w.settings.expandQuoted⟩

/-- Arguments are expanded in the same place as long as nothing is chosen for the shell. -/
theorem World.KeepsStores.site {w w' : World} (kept : w.KeepsStores w') : w'.site = w.site := by
  simp only [World.site, kept.cache, kept.remote, kept.cwd, kept.settings]

namespace Execution

open Prepared

/-- Whether the arguments of a command cannot be expanded, those of the commands before it having
been expanded. -/
inductive ExpansionFails (site : Glob.Site) : List Segment → World → Prop where
  | here {s rest w} : Fails (Glob.expand site s.args) w → ExpansionFails site (s :: rest) w
  | later {s rest w w'} : Succeeds (Glob.expand site s.args) w w' → ExpansionFails site rest w' →
      ExpansionFails site (s :: rest) w

/-- Whether a pipeline fails before its commands run: one of them is unknown, or a redirection
cannot be opened or arguments cannot be expanded once all that comes before has gone well. -/
inductive SetupFails (r : Registry) (p : Pipeline) (w : World) : Prop where
  | unknown {s} : s ∈ p.segments → r.get? s.name = none → SetupFails r p w
  | input {path} : p.segments.head?.bind Segment.input = some path →
      Fails (openInput path) w → SetupFails r p w
  | output {w₁ target} : Succeeds (openInputOf p) w w₁ →
      p.segments.getLast?.bind Segment.output = some target →
      Fails (Redirect.open? target) w₁ → SetupFails r p w
  | error {w₁ w₂ target} : Succeeds (openInputOf p) w w₁ → Succeeds (openOutputOf p) w₁ w₂ →
      p.segments.getLast?.bind Segment.error = some target →
      Fails (Redirect.open? target) w₂ → SetupFails r p w
  | expansion {w₁ w₂ w₃} : Succeeds (openInputOf p) w w₁ → Succeeds (openOutputOf p) w₁ w₂ →
      Succeeds (openErrorOf p) w₂ w₃ → ExpansionFails w.site p.segments w₃ → SetupFails r p w

/-! ### What fails -/

private theorem fails_onSome {f : α → Task β} {option : Option α} {a : α} {w : World}
    (given : option = some a) (looks : Looks (f a)) (fails : Fails (f a) w) :
    Fails (onSome option f) w := by
  subst given
  exact fails.andThen looks

private theorem fails_expandAll {site : Glob.Site} {segments : List Segment} {w : World}
    (fails : ExpansionFails site segments w) : Fails (expandAll site segments) w := by
  induction fails with
  | here fails => exact fails.andThen (Glob.looks_expand _)
  | later expanded _ ih =>
    exact expanded.andThen (Glob.looks_expand _) fun _ _ => ih.andThen (looks_expandAll _)

private theorem Succeeds.keepsStores {t : Task α} {w w' : World} (looks : Looks t)
    (succeeds : Succeeds t w w') : w.KeepsStores w' := by
  obtain ⟨_, ran⟩ := succeeds
  exact looks.keepsStores ran

/-- A pipeline whose commands are known fails as its preparation does. -/
theorem fails_ofPipeline {r : Registry} {p : Pipeline} {w : World}
    (fails : SetupFails r p w) (known : ∀ s ∈ p.segments, r.get? s.name ≠ none) :
    Fails (ofPipeline p) w := by
  cases fails with
  | unknown member unknown => exact absurd unknown (known _ member)
  | input given fails =>
    exact (fails_onSome given (looks_openInput _) fails).andThen (looks_openInputOf p)
  | output input given fails =>
    refine input.andThen (looks_openInputOf p) fun _ _ => ?_
    exact (fails_onSome given (Redirect.looks_open? _) fails).andThen (looks_openOutputOf p)
  | error input output given fails =>
    refine input.andThen (looks_openInputOf p) fun _ _ => ?_
    refine output.andThen (looks_openOutputOf p) fun _ _ => ?_
    exact (fails_onSome given (Redirect.looks_open? _) fails).andThen (looks_openErrorOf p)
  | @expansion w₁ w₂ w₃ input output error fails =>
    have kept := ((Succeeds.keepsStores (looks_openInputOf p) input).trans
      (Succeeds.keepsStores (looks_openOutputOf p) output)).trans
        (Succeeds.keepsStores (looks_openErrorOf p) error)
    refine input.andThen (looks_openInputOf p) fun _ _ => ?_
    refine output.andThen (looks_openOutputOf p) fun _ _ => ?_
    refine error.andThen (looks_openErrorOf p) fun _ _ => ?_
    refine Succeeds.andThen (looks_ask rfl) ⟨_, rfl⟩ fun desk ran => ?_
    cases ran
    rw [← kept.site] at fails
    exact (fails_expandAll fails).andThen (looks_expandAll _)

/-- Which commands are known decides whether the look-up fails, and how. -/
theorem lookUp_of_same_names {r r' : Registry} {segments : List Segment}
    (same : ∀ s ∈ segments, (r'.get? s.name).isSome = (r.get? s.name).isSome) :
    (lookUp r' segments).map (fun _ => ()) = (lookUp r segments).map fun _ => () := by
  induction segments with
  | nil => rfl
  | cons s rest ih =>
    have first := same s (List.mem_cons_self ..)
    have others := ih fun s member => same s (List.mem_cons_of_mem _ member)
    rw [lookUp, lookUp]
    cases known : r.get? s.name with
    | none =>
      rw [known, Option.isSome_none, Option.isSome_eq_false_iff, Option.isNone_iff_eq_none] at first
      rw [first]
    | some command =>
      rw [known, Option.isSome_some, Option.isSome_iff_exists] at first
      obtain ⟨command', first⟩ := first
      rw [first]
      cases behind : lookUp r rest <;> cases behind' : lookUp r' rest <;>
        rw [behind, behind'] at others <;> cases others <;> rfl

/-- An unknown command is found out. -/
theorem lookUp_error_iff {r : Registry} {segments : List Segment} :
    (∃ failure, lookUp r segments = .error failure) ↔ ∃ s ∈ segments, r.get? s.name = none := by
  induction segments with
  | nil => simp [lookUp]
  | cons s rest ih =>
    rw [lookUp]
    cases known : r.get? s.name with
    | none => simp [known]
    | some command =>
      simp only [List.mem_cons, exists_eq_or_imp, known, reduceCtorEq, false_or, ← ih]
      cases lookUp r rest <;> simp [Except.map]

private theorem SetupFails.nonempty {r : Registry} {p : Pipeline} {w : World}
    (fails : SetupFails r p w) : p.segments.isEmpty = false := by
  cases segments : p.segments with
  | cons => rfl
  | nil =>
    cases fails with
    | unknown member => simp [segments] at member
    | input given | output _ given | error _ _ given => simp [segments] at given
    | expansion _ _ _ fails =>
      rw [segments] at fails
      cases fails

private theorem runPipeline_of_lookUp_error {r : Registry} {p : Pipeline} {failure : Failure}
    (nonempty : p.segments.isEmpty = false) (unknown : lookUp r p.segments = .error failure)
    (stage : Stage) : runPipeline r p stage = some (.error failure, stage) := by
  rw [runPipeline, nonempty, unknown]
  rfl

private theorem runPipeline_of_preparation {r : Registry} {p : Pipeline} {commands : List Command}
    (nonempty : p.segments.isEmpty = false) (known : lookUp r p.segments = .ok commands)
    {stage : Stage} {failure : Failure} {w : World}
    (failed : stage.world.run? (ofPipeline p).toScript = some (.error failure, w)) :
    runPipeline r p stage = some (.error failure, { stage with world := w }) := by
  rw [runPipeline, nonempty, known]
  change ((stage.world.run? (ofPipeline p).toScript).map _).bind _ = _
  rw [failed]
  rfl

/-- A pipeline that fails before its commands run fails in the same way whatever its commands are,
so none of them has run. Nothing was written to the caller, and the stores and the working directory
are as before; if a command is unknown then so is everything else. -/
theorem runPipeline_of_setupFails {r : Registry} {p : Pipeline} {stage : Stage}
    (fails : SetupFails r p stage.world) : ∃ failure w,
      runPipeline r p stage = some (.error failure, { stage with world := w }) ∧
      (∀ r' : Registry,
        (∀ s ∈ p.segments, (r'.get? s.name).isSome = (r.get? s.name).isSome) →
          runPipeline r' p stage = runPipeline r p stage) ∧
      w.remotes.map Remote.store = stage.world.remotes.map Remote.store ∧
      w.cwd = stage.world.cwd ∧
      ((∃ s ∈ p.segments, r.get? s.name = none) → w = stage.world) := by
  have nonempty := fails.nonempty
  cases found : lookUp r p.segments with
  | error failure =>
    have fails := runPipeline_of_lookUp_error nonempty found stage
    refine ⟨failure, stage.world, fails, fun r' same => ?_, rfl, rfl, fun _ => rfl⟩
    have alike := lookUp_of_same_names same
    cases found' : lookUp r' p.segments with
    | error failure' =>
      rw [found, found'] at alike
      cases alike
      exact (runPipeline_of_lookUp_error nonempty found' stage).trans fails.symm
    | ok commands =>
      rw [found, found'] at alike
      cases alike
  | ok commands =>
    have known : ¬ ∃ s ∈ p.segments, r.get? s.name = none := by
      rw [← lookUp_error_iff, found]
      simp
    obtain ⟨failure, w, failed⟩ := fails_ofPipeline fails fun s member unknown =>
      known ⟨s, member, unknown⟩
    have kept := (looks_ofPipeline p).keepsStores failed
    have fails := runPipeline_of_preparation nonempty found failed
    refine ⟨failure, w, fails, fun r' same => ?_, kept.stores, kept.cwd, fun unknown =>
      absurd unknown known⟩
    have alike := lookUp_of_same_names same
    cases found' : lookUp r' p.segments with
    | error failure' =>
      rw [found, found'] at alike
      cases alike
    | ok commands' => exact (runPipeline_of_preparation nonempty found' failed).trans fails.symm

def textsIntoList : Pipeline where
  segments := [{ name := "echo", args := [⟨"*.txt", false⟩], output := some ⟨"/out/list", false⟩ }]

def unlistedStage : Stage where
  world := Trial.start
    { objects := [("/out", none)]
      faults := [⟨"list_dir", "*", .remote "temporarily unavailable", none⟩] } {} none none
  outlets := .willing

/-- When `echo *.txt > /out/list` cannot find the files, its output is open already and is given up.
-/
theorem runPipeline_textsIntoList : ∃ failure w,
    runPipeline Registry.standard textsIntoList unlistedStage =
        some (.error failure, { unlistedStage with world := w }) ∧
      w.remotes.map Remote.store = unlistedStage.world.remotes.map Remote.store := by
  have evaluated : ((unlistedStage.world.run? (openOutputOf textsIntoList).toScript).bind
      fun (opened, w) =>
        (w.run? (Glob.expand unlistedStage.world.site [⟨"*.txt", false⟩]).toScript).map
          fun (expanded, _) => (opened.toOption.isSome, expanded.toOption.isSome)) =
      some (true, false) := by
    decide +kernel
  obtain ⟨⟨opened, w⟩, opens, evaluated⟩ := Option.bind_eq_some_iff.mp evaluated
  obtain ⟨⟨expanded, w'⟩, expands, shown⟩ := Option.map_eq_some_iff.mp evaluated
  cases opened with
  | error failure => simp [Except.toOption] at shown
  | ok output =>
    cases expanded with
    | ok words => simp [Except.toOption] at shown
    | error failure =>
      have fails : SetupFails Registry.standard textsIntoList unlistedStage.world :=
        .expansion ⟨none, rfl⟩ ⟨output, opens⟩ ⟨none, rfl⟩ (.here ⟨failure, w', expands⟩)
      obtain ⟨failure, w, failed, -, stores, -⟩ := runPipeline_of_setupFails fails
      exact ⟨failure, w, failed, stores⟩

end Execution

end StoreShell
