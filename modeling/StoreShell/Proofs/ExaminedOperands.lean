import StoreShell.Command.Folders
import StoreShell.Proofs.ConfinedScripts
import StoreShell.Proofs.NamedEntries

/-! # What listing commands make of their operands

`ls` examines its operands one after the other. It looks an operand up, and if that is a folder has its
children listed. It tells of an operand that cannot be looked up and goes on, and writes at its end what
it has found. But a folder whose children cannot be listed ends it there and then: nothing that was
found before is written, and nothing behind is examined (`Command.run?_ls`).
-/

namespace StoreShell

open StoreShell.Path

/-! ### Scripts without streams -/

namespace Script

variable {α : Type} {s : Script α}

/-- Whether something that a script does is done without its streams. -/
def Doing.IsQuiet : Doing → Prop
  | .ask _ | .claim .. | .list _ => True
  | _ => False

/-- Whether a script uses no streams. -/
abbrev Quiet (s : Script α) : Prop := s.Confined Doing.IsQuiet

/-- A script that uses no streams makes the same of the world whatever its streams are. -/
theorem Quiet.run?_eq (quiet : s.Quiet) (scene : Scene) :
    s.run? scene = (scene.world.run? s).map fun (a, world) => (a, { scene with world }) := by
  induction quiet generalizing scene with
  | done => rfl
  | ask _ _ ih => exact ih _ { scene with world := _ }
  | list _ _ ih => exact ih _ { scene with world := _ }
  | @claim cache folder next _ _ ih =>
    rw [run?, World.run?, run?]
    dsimp only
    cases scene.world.awaitClaim cache folder with
    | none => rfl
    | some claimed => exact ih claimed.1 { scene with world := claimed.2 }
  | write uses | flush uses | copy uses | collect uses | saved uses | release uses | hang uses =>
    cases uses

/-- Listing a folder uses no streams. -/
theorem quiet_ensureChildren (cache remote : Nat) (folder : String) :
    (Task.ensureChildren cache remote folder).toScript.Quiet := by
  have attempt : ∀ {whenStale : List Entry → Script (Except Failure (List Entry))},
      (∀ entries, (whenStale entries).Quiet) →
        (Script.claim cache (normalize folder)
          (Errand.goOn cache remote (normalize folder) whenStale)).Quiet := by
    intro whenStale again
    refine .claim trivial fun known => ?_
    cases known with
    | some children => exact .done
    | none =>
      refine .list trivial fun answer => ?_
      cases answer with
      | error failure => exact .ask trivial fun _ => .done
      | ok entries =>
        refine .ask trivial fun told => ?_
        cases told with
        | some children => exact .done
        | none => exact again entries
  have attempts : ∀ again,
      (Task.ensureChildrenIn cache remote (normalize folder) again).Quiet := by
    intro again
    induction again with
    | zero => exact Errand.ensureChildrenIn_eq cache remote _ 0 ▸ attempt fun _ => .done
    | succ again ih => exact Errand.ensureChildrenIn_eq cache remote _ _ ▸ attempt fun _ => ih
  exact attempts _

theorem quiet_stat (path : String) : (Task.stat path).toScript.Quiet :=
  Task.confined_stat (fun _ => trivial) path

end Script

/-! ### Streams that take everything -/

/-- Whether a sink takes all bytes that are written to it. -/
def Outlets.Accepts (o : Outlets) : Sink → Prop
  | .caller which => ∀ trouble, (o.callers.get which).refuses ≠ .writes trouble
  | .discard | .saved _ | .pipe => True

/-- A sink that takes everything does so after every write as well. -/
theorem Outlets.write_of_accepts {o : Outlets} {sink : Sink} (accepts : o.Accepts sink)
    (bytes : Bytes) : (o.write sink bytes).1 = .ok () ∧
      ∀ other, o.Accepts other → (o.write sink bytes).2.Accepts other := by
  cases sink with
  | discard | pipe => exact ⟨rfl, fun _ => id⟩
  | saved which =>
    refine ⟨rfl, fun other accepts => ?_⟩
    cases other <;> exact accepts
  | caller which =>
    have taken : (o.callers.get which).write bytes =
        (.ok (), { o.callers.get which with received := (o.callers.get which).received.push bytes }) := by
      rw [CallerStream.write]
      split
      · next trouble refuses => exact absurd refuses (accepts trouble)
      · rfl
    rw [write, taken]
    refine ⟨rfl, fun other accepts' => ?_⟩
    cases other with
    | discard | pipe | saved => trivial
    | caller other =>
      dsimp only [Accepts] at accepts' ⊢
      by_cases same : other = which
      · subst same
        rw [PerOutput.get_set_self]
        exact accepts'
      · rw [PerOutput.get_set_of_ne _ _ same]
        exact accepts'

namespace Scene

/-- Whether both streams of a script take everything. -/
def Accepts (s : Scene) : Prop := ∀ dest, s.outlets.Accepts (s.sinks.get dest)

def printAll (s : Scene) (dest : Output) (texts : List String) : Scene :=
  texts.foldl (fun s text => (s.write dest (Text.Utf8.encode text)).2) s

variable {s : Scene}

theorem write_of_accepts (accepts : s.Accepts) (dest : Output) (bytes : Bytes) :
    (s.write dest bytes).1 = .ok () ∧ (s.write dest bytes).2.Accepts := by
  rw [write]
  split
  · exact ⟨rfl, accepts⟩
  · obtain ⟨taken, others⟩ := Outlets.write_of_accepts (accepts dest) bytes
    exact ⟨taken, fun other => others _ (accepts other)⟩

/-- Streams that take everything take all texts in turn. -/
theorem printAll_of_accepts (accepts : s.Accepts) (dest : Output) (texts : List String) :
    (s.printAll dest texts).Accepts := by
  induction texts generalizing s with
  | nil => exact accepts
  | cons text rest ih => exact ih (s.write_of_accepts accepts dest _).2

@[simp] theorem world_printAll (s : Scene) (dest : Output) (texts : List String) :
    (s.printAll dest texts).world = s.world := by
  induction texts generalizing s with
  | nil => rfl
  | cons text rest ih => exact (ih _).trans (s.world_write dest _)

/-- What is written does not depend on the world. -/
theorem printAll_withWorld (s : Scene) (world : World) (dest : Output) (texts : List String) :
    { s with world }.printAll dest texts = { s.printAll dest texts with world } := by
  induction texts generalizing s with
  | nil => rfl
  | cons text rest ih =>
    have wrote : ({ s with world }.write dest (Text.Utf8.encode text)).2 =
        { (s.write dest (Text.Utf8.encode text)).2 with world } := by
      rw [write, write]
      split <;> rfl
    exact (congrArg (fun s => printAll s dest rest) wrote).trans (ih _)

end Scene

namespace Command

/-! ### Operands one after the other -/

/-- What examining an operand comes to. -/
inductive Finding where
  /-- A file. -/
  | file (e : Entry)
  /-- A folder, with its children. -/
  | folder (children : List Entry)
  /-- Nothing that could be looked up. -/
  | missing (failure : Failure)
  /-- A folder whose children could not be listed. -/
  | unlisted (failure : Failure)

namespace Finding

/-- Whether an operand is a folder whose children could not be listed. -/
def isUnlisted : Finding → Bool
  | .unlisted _ => true
  | .file _ | .folder _ | .missing _ => false

/-- Whether an operand could not be looked up. -/
def isMissing : Finding → Bool
  | .missing _ => true
  | .file _ | .folder _ | .unlisted _ => false

/-- Whether an operand could not be looked up or listed. -/
def failed (finding : Finding) : Bool := finding.isMissing || finding.isUnlisted

/-- What is shown of an operand behind what was shown so far. -/
def shown (o : Operands) (headers : Bool) (operand sofar : String) : Finding → String
  | .file e => entryLine (o.has 'l') e operand
  | .folder children =>
    (if headers then header operand sofar else "") ++ childLines o children
  | .missing _ | .unlisted _ => ""

end Finding

/-- What is reported of an operand that cannot be looked up. -/
def report (operand : String) (failure : Failure) : String :=
  s!"ls: {(asWritten operand failure).message}\n"

/-- Looks an operand up, and has its children listed if it is a folder. There is no result if that
never ends. -/
def examine (cache remote : Nat) (operand : String) (w : World) : Option (Finding × World) :=
  let path := w.resolve operand
  (w.run? (Task.stat path).toScript).bind fun
    | (.error failure, w) => some (.missing failure, w)
    | (.ok e, w) =>
      if e.isFolder then
        (w.run? (Task.ensureChildren cache remote path).toScript).map fun
          | (.error failure, w) => (.unlisted failure, w)
          | (.ok children, w) => (.folder children, w)
      else some (.file e, w)

/-- Examines operands one after the other, up to a folder that cannot be listed. -/
def explore (cache remote : Nat) : List String → World → Option (List (String × Finding) × World)
  | [], w => some ([], w)
  | operand :: rest, w =>
    (examine cache remote operand w).bind fun
      | (.unlisted failure, w) => some ([(operand, .unlisted failure)], w)
      | (finding, w) =>
        (explore cache remote rest w).map fun (found, w) => ((operand, finding) :: found, w)

def allShown (o : Operands) (headers : Bool) (sofar : String) (found : List (String × Finding)) :
    String :=
  found.foldl (fun sofar (operand, finding) => sofar ++ finding.shown o headers operand sofar) sofar

def reports (found : List (String × Finding)) : List String :=
  found.filterMap fun
    | (operand, .missing failure) => some (report operand failure)
    | _ => none

/-- How the folder could not be listed at which the examination ended, if it ended at one. -/
def unlisted? (found : List (String × Finding)) : Option Failure :=
  found.findSome? fun
    | (_, .unlisted failure) => some failure
    | _ => none

/-- What is gathered of operands: all that is to be shown, and whether one could not be looked up. -/
def gathered (o : Operands) (headers : Bool) (sofar : String) (failed : Bool)
    (found : List (String × Finding)) : Except Failure (String × Bool) :=
  match unlisted? found with
  | some failure => .error failure
  | none => .ok (allShown o headers sofar found, failed || found.any (·.2.isMissing))

/-- An operand that cannot be looked up has nothing shown and is counted as failed. -/
theorem gathered_missing (o : Operands) (headers failed : Bool) (sofar operand : String)
    (failure : Failure) (found : List (String × Finding)) :
    gathered o headers sofar failed ((operand, .missing failure) :: found) =
      gathered o headers sofar true found := by
  have shown : allShown o headers sofar ((operand, .missing failure) :: found) =
      allShown o headers sofar found :=
    congrArg (fun sofar => allShown o headers sofar found) String.append_empty
  have here : unlisted? ((operand, .missing failure) :: found) = unlisted? found := rfl
  rw [gathered, gathered, here, shown, List.any_cons, Finding.isMissing, Bool.true_or, Bool.or_true]

/-- How the examination of operands goes on with what the first one of them has come to. -/
def goOn (o : Operands) (cache remote : Nat) (headers : Bool) (sofar : String) (failed : Bool)
    (operand : String) (rest : List String) (scene : Scene) :
    Finding × World → Option (Except Failure (String × Bool) × Scene)
  | (.missing failure, world) =>
    (lsOperands o cache remote headers sofar true rest).toScript.run?
      ({ scene with world }.printAll .err [report operand failure])
  | (.unlisted failure, world) => some (.error failure, { scene with world })
  | (finding, world) =>
    (lsOperands o cache remote headers (sofar ++ finding.shown o headers operand sofar) failed
      rest).toScript.run? { scene with world }

section Run

variable {o : Operands} {cache remote : Nat} {headers failed : Bool} {sofar operand : String}
  {rest : List String} {scene : Scene}

private theorem run?_attempt {α β : Type} {t : Task α} (quiet : t.toScript.Quiet)
    (f : Except Failure α → Task β) (scene : Scene) :
    (Task.attempt t >>= f).toScript.run? scene =
      (scene.world.run? t.toScript).bind fun x =>
        (f x.1).toScript.run? { scene with world := x.2 } := by
  rw [Task.run?_andThen, Task.run?_attempt, quiet.run?_eq]
  cases scene.world.run? t.toScript <;> rfl

private theorem run?_print {β : Type} (accepts : scene.Accepts) (dest : Output) (text : String)
    (f : Task β) : (Task.print dest text >>= fun _ => f).toScript.run? scene =
      f.toScript.run? (scene.printAll dest [text]) := by
  have printed : (Task.print dest text).toScript.run? scene =
      some ((scene.write dest (Text.Utf8.encode text)).1.mapError .stream,
        scene.printAll dest [text]) := rfl
  rw [Task.run?_andThen, printed, (scene.write_of_accepts accepts dest _).1]
  rfl

/-- Running `ls` on operands is examining the first one and going on with what it has come to. -/
theorem run?_lsOperands_cons (accepts : scene.Accepts) :
    (lsOperands o cache remote headers sofar failed (operand :: rest)).toScript.run? scene =
      (examine cache remote operand scene.world).bind
        (goOn o cache remote headers sofar failed operand rest scene) := by
  have resolved : (Task.resolve operand).toScript.run? scene =
      some (.ok (scene.world.resolve operand), scene) := rfl
  rw [lsOperands, Task.run?_andThen, resolved, Option.bind_some]
  dsimp only
  rw [run?_attempt (Script.quiet_stat _), examine, Option.bind_assoc]
  congr 1
  funext x
  obtain ⟨looked, world⟩ := x
  cases looked with
  | error failure =>
    have elsewhere : ({ scene with world } : Scene).Accepts := accepts
    exact run?_print elsewhere .err (report operand failure) _
  | ok e =>
    dsimp only
    cases e.isFolder with
    | false => rfl
    | true =>
      rw [if_pos rfl, if_pos rfl, Task.run?_andThen,
        (Script.quiet_ensureChildren cache remote _).run?_eq]
      rcases world.run? (Task.ensureChildren cache remote (scene.world.resolve operand)).toScript with
        _ | ⟨failure | children, world'⟩
      · rfl
      · rfl
      · have same : sofar ++ Finding.shown o headers operand sofar (.folder children) =
            (if headers then sofar ++ header operand sofar else sofar) ++ childLines o children := by
          rw [Finding.shown, ← String.append_assoc]
          cases headers with
          | false => exact congrArg (· ++ _) String.append_empty
          | true => rfl
        dsimp only [Option.map_some, Option.bind_some, goOn]
        rw [same]

/-- Operands that cannot be looked up are reported, and the others are gathered until a folder cannot
be listed. -/
theorem run?_lsOperands (accepts : scene.Accepts) (operands : List String) :
    (lsOperands o cache remote headers sofar failed operands).toScript.run? scene =
      (explore cache remote operands scene.world).map fun (found, world) =>
        (gathered o headers sofar failed found, { scene with world }.printAll .err (reports found)) := by
  induction operands generalizing scene sofar failed with
  | nil =>
    have nothing : gathered o headers sofar failed [] = .ok (sofar, failed) :=
      congrArg (fun failed => Except.ok (sofar, failed)) (Bool.or_false failed)
    rw [explore, Option.map_some]
    dsimp only
    rw [nothing]
    rfl
  | cons operand rest ih =>
    rw [run?_lsOperands_cons accepts, explore, Option.map_bind]
    congr 1
    funext ⟨finding, between⟩
    have elsewhere : ({ scene with world := between } : Scene).Accepts := accepts
    rw [Function.comp_apply]
    cases finding with
    | unlisted failure => rfl
    | file | folder =>
      dsimp only [goOn]
      rw [ih elsewhere, Option.map_map]
      rfl
    | missing failure =>
      have told := Scene.printAll_of_accepts elsewhere .err [report operand failure]
      dsimp only [goOn]
      rw [ih told, Scene.world_printAll, Option.map_map]
      congr 1
      funext ⟨found, world⟩
      dsimp only [Function.comp_apply]
      rw [gathered_missing, ← Scene.printAll_withWorld]
      rfl

end Run

/-! ### All operands -/

def targets (args : List String) : List String :=
  let o := Operands.ofArgs args
  if o.operands.isEmpty then ["."] else o.operands

def verdict (found : List (String × Finding)) : Verdict :=
  match unlisted? found with
  | some failure => .error failure
  | none => if found.any (·.2.isMissing) then .error (.exitStatus 2) else .ok ()

def written (args : List String) (found : List (String × Finding)) : List String :=
  match unlisted? found with
  | some _ => []
  | none => [allShown (Operands.ofArgs args) (1 < (targets args).length) "" found]

variable {cache remote : Nat} {operand : String} {operands : List String} {w w' : World}
  {finding : Finding} {found : List (String × Finding)}

/-- The examination ends at an operand, or it goes on behind it. -/
theorem explore_cons_cases {rest : List String}
    (explored : explore cache remote (operand :: rest) w = some (found, w')) :
    ∃ finding between, examine cache remote operand w = some (finding, between) ∧
      ((∃ failure, finding = .unlisted failure ∧ found = [(operand, finding)]) ∨
        ∃ more, finding.isUnlisted = false ∧ found = (operand, finding) :: more ∧
          explore cache remote rest between = some (more, w')) := by
  obtain ⟨⟨finding, between⟩, examined, later⟩ := Option.bind_eq_some_iff.mp explored
  refine ⟨finding, between, examined, ?_⟩
  cases finding with
  | unlisted failure =>
    cases later
    exact Or.inl ⟨failure, rfl, rfl⟩
  | file | folder | missing =>
    obtain ⟨⟨more, world⟩, goesOn, same⟩ := Option.map_eq_some_iff.mp later
    cases same
    exact Or.inr ⟨more, rfl, rfl, goesOn⟩

/-- Operands that could be listed do not end the examination. -/
theorem unlisted?_cons (listed : finding.isUnlisted = false) :
    unlisted? ((operand, finding) :: found) = unlisted? found := by
  cases finding with
  | unlisted failure => cases listed
  | file | folder | missing => rfl

/-- The examination ends at the first folder that cannot be listed, or else behind the last operand. -/
theorem explore_ends (explored : explore cache remote operands w = some (found, w')) :
    (unlisted? found = none ∧ found.map Prod.fst = operands) ∨
      ∃ before operand failure rest, unlisted? found = some failure ∧
        found = before ++ [(operand, .unlisted failure)] ∧ unlisted? before = none ∧
        operands = before.map Prod.fst ++ operand :: rest := by
  induction operands generalizing w found with
  | nil =>
    cases explored
    exact Or.inl ⟨rfl, rfl⟩
  | cons operand rest ih =>
    obtain ⟨finding, between, -, ⟨failure, rfl, rfl⟩ | ⟨more, listed, rfl, goesOn⟩⟩ :=
      explore_cons_cases explored
    · exact Or.inr ⟨[], operand, failure, rest, rfl, rfl, rfl, rfl⟩
    · rw [unlisted?_cons listed]
      rcases ih goesOn with ⟨none, all⟩ | ⟨before, refusing, failure, behind, ends, rfl, none, all⟩
      · exact Or.inl ⟨none, congrArg (operand :: ·) all⟩
      · exact Or.inr ⟨(operand, finding) :: before, refusing, failure, behind, ends, rfl,
          (unlisted?_cons listed).trans none, congrArg (operand :: ·) all⟩

/-- What is found of a folder is in the order of the names, since cache and store name entries
properly. -/
theorem named_examine (named : w.Named)
    (examined : examine cache remote operand w = some (finding, w')) : w'.Named ∧
      ∀ children, finding = .folder children → (children.map Entry.name).Pairwise (· ≤ ·) := by
  obtain ⟨⟨looked, between⟩, ran, rest⟩ := Option.bind_eq_some_iff.mp examined
  have named' := ((Script.keepsNamed_stat _).world named ran).1
  cases looked with
  | error failure =>
    cases rest
    exact ⟨named', by rintro _ ⟨⟩⟩
  | ok e =>
    dsimp only at rest
    split at rest
    · obtain ⟨⟨listed, after⟩, ran', same⟩ := Option.map_eq_some_iff.mp rest
      obtain ⟨named'', ascending⟩ := (Script.keepsNamed_ensureChildren _ _ _).world named' ran'
      cases listed with
      | error failure =>
        cases same
        exact ⟨named'', by rintro _ ⟨⟩⟩
      | ok children =>
        cases same
        refine ⟨named'', ?_⟩
        rintro _ ⟨⟩
        exact ascending children rfl
    · cases rest
      exact ⟨named', by rintro _ ⟨⟩⟩

/-- In a named world, the children of folders are found in ascending order of their names. -/
theorem pairwise_of_explore (named : w.Named)
    (explored : explore cache remote operands w = some (found, w')) {children : List Entry}
    (member : (operand, .folder children) ∈ found) :
    (children.map Entry.name).Pairwise (· ≤ ·) := by
  induction operands generalizing w found with
  | nil =>
    cases explored
    cases member
  | cons first rest ih =>
    obtain ⟨finding, between, examined, cases⟩ := explore_cons_cases explored
    obtain ⟨named', ascending⟩ := named_examine named examined
    rcases cases with ⟨failure, rfl, rfl⟩ | ⟨more, -, rfl, goesOn⟩
    · cases List.mem_singleton.mp member
    · rcases List.mem_cons.mp member with here | behind
      · cases here
        exact ascending children rfl
      · exact ih named' goesOn behind

/-- The examination comes to the last operand if and only if no folder on the way fails to be
listed. -/
theorem unlisted?_eq_none_iff : unlisted? found = none ↔ ∀ p ∈ found, p.2.isUnlisted = false := by
  rw [unlisted?, List.findSome?_eq_none_iff]
  refine forall₂_congr fun p _ => ?_
  obtain ⟨operand, finding⟩ := p
  cases finding <;> simp [Finding.isUnlisted]

/-- `ls` fails exactly if an operand could not be looked up or listed. -/
theorem verdict_eq_ok_iff : verdict found = .ok () ↔ ∀ p ∈ found, p.2.failed = false := by
  simp only [Finding.failed, Bool.or_eq_false_iff, forall₂_and, ← unlisted?_eq_none_iff]
  rw [verdict]
  cases unlisted? found <;> simp

/-- Where the streams take everything, `ls` ends whenever the examination of its operands does. It has
reported, in order, those that could not be looked up. If all folders could be listed then every
operand was examined, and it writes, in order, what the others are; children of folders come in ascending
order of their names. It fails exactly if an operand could not be looked up or listed. But the first
folder that cannot be listed ends it without a report, and nothing is written. -/
theorem run?_ls (args : List String) (scene : Scene) (accepts : scene.Accepts) :
    let explored := explore scene.world.cache scene.world.remote (targets args) scene.world
    (ls args).toScript.run? scene = (explored.map fun (found, world) => (verdict found,
      ({ scene with world }.printAll .err (reports found)).printAll .out (written args found))) ∧
    ∀ found world, explored = some (found, world) →
      (verdict found = .ok () ↔ ∀ p ∈ found, p.2.failed = false) ∧
      ((unlisted? found = none ∧ found.map Prod.fst = targets args) ∨
        ∃ before operand failure rest, unlisted? found = some failure ∧
          found = before ++ [(operand, .unlisted failure)] ∧ unlisted? before = none ∧
          targets args = before.map Prod.fst ++ operand :: rest) ∧
      (scene.world.Named → ∀ operand children, (operand, .folder children) ∈ found →
        (children.map Entry.name).Pairwise (· ≤ ·)) := by
  intro explored
  refine ⟨?_, fun found world done => ⟨verdict_eq_ok_iff, explore_ends done,
    fun named operand children => pairwise_of_explore named done⟩⟩
  have run : (ls args).toScript.run? scene =
      ((lsOperands (Operands.ofArgs args) scene.world.cache scene.world.remote
        (1 < (targets args).length) "" false (targets args) >>= fun gathered => do
          Task.print .out gathered.1
          if gathered.2 then throw (.exitStatus 2) : Task Unit).toScript.run? scene) := rfl
  rw [run, Task.run?_andThen, run?_lsOperands accepts, Option.bind_map]
  change explored.bind _ = _
  cases explored with
  | none => rfl
  | some x =>
    obtain ⟨found, world⟩ := x
    dsimp only [Option.bind_some, Option.map_some, Function.comp_apply]
    rw [gathered, verdict, written]
    cases unlisted? found with
    | some failure => rfl
    | none =>
      have told := Scene.printAll_of_accepts (s := { scene with world }) accepts .err (reports found)
      dsimp only
      rw [run?_print told, Bool.false_or]
      cases found.any (·.2.isMissing) <;> rfl

section Shelf

private def heard (world : World) : Scene := { world, sinks := ⟨.caller .out, .caller .err⟩ }

private def shelf : Trial.Supply where
  objects := [("/a", some []), ("/d/f", some []), ("/d/.g", none)]

/-- Of a missing operand, a folder with a hidden child and a file, all that can be shown is shown,
and the verdict is a failure. -/
theorem run?_ls_amongMissing : ∃ found world,
    explore 0 0 ["nope", "/d", "a"] (Trial.start shelf {} none none) = some (found, world) ∧
    (ls ["-a", "nope", "/d", "a"]).toScript.run? (heard (Trial.start shelf {} none none)) =
      some (.error (.exitStatus 2),
        ((heard world).printAll .err ["ls: nope: no such file or directory\n"]).printAll .out
          ["/d:\n.g\nf\na\n"]) ∧
    ∀ operand children, (operand, .folder children) ∈ found →
      (children.map Entry.name).Pairwise (· ≤ ·) := by
  have accepts : (heard (Trial.start shelf {} none none)).Accepts := by
    rintro (_ | _) trouble ⟨⟩
  have looked : (explore 0 0 ["nope", "/d", "a"] (Trial.start shelf {} none none)).map
      (fun (found, _) => (verdict found, reports found, written ["-a", "nope", "/d", "a"] found)) =
      some (.error (.exitStatus 2), ["ls: nope: no such file or directory\n"],
        ["/d:\n.g\nf\na\n"]) := by
    decide +kernel
  obtain ⟨⟨found, world⟩, explored, same⟩ := Option.map_eq_some_iff.mp looked
  simp only [Prod.mk.injEq] at same
  obtain ⟨ends, told, shows⟩ := same
  obtain ⟨run, details⟩ := run?_ls ["-a", "nope", "/d", "a"] _ accepts
  have targeted : targets ["-a", "nope", "/d", "a"] = ["nope", "/d", "a"] := by decide +kernel
  change (ls ["-a", "nope", "/d", "a"]).toScript.run? (heard (Trial.start shelf {} none none)) =
    (explore 0 0 (targets _) (Trial.start shelf {} none none)).map _ at run
  rw [targeted, explored, Option.map_some] at run
  dsimp only at run
  rw [ends, told, shows] at run
  have named : (heard (Trial.start shelf {} none none)).world.Named :=
    Trial.named_start shelf {} none none
  refine ⟨found, world, explored, run, ?_⟩
  exact (details found world (by rw [targeted]; exact explored)).2.2 named

private def barred : Trial.Supply where
  objects := [("/a", some []), ("/b", some []), ("/d/f", some [])]
  faults := [⟨"list_dir", "/d", .remote "boom", none⟩]

/-- Two files are there to be shown, but the folder between them that cannot be listed has `ls` write
and report nothing, and the second file is not examined. -/
theorem ls_cutShort :
    ((examine 0 0 "/a" (Trial.start barred {} none none)).map fun (finding, _) =>
      finding.shown {} true "/a" "") = some "/a\n" ∧
    ((ls ["/a", "/d", "/b"]).toScript.run? (heard (Trial.start barred {} none none))).map
      (fun (verdict, s) => (verdict, s.outlets.callers.out.received.bytes,
        s.outlets.callers.err.received.bytes, (s.world.remoteAt 0).calls)) =
      some (.error (.remote "boom"), [], [], [.listFolder "/d", .stat "/d", .stat "/a"]) := by
  decide +kernel

end Shelf

end Command

end StoreShell
