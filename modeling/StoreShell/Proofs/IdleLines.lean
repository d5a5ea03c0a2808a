import Mathlib.Data.List.Basic
import StoreShell.CommandLine

/-! # Blank lines and comments

A run passes over lines that hold nothing to be run. `Padded` puts such lines between the lines of
a text, in front of them or behind them. The run goes the same way then, with the same world, output
and messages (`runAll_padded`). But a line that is passed over counts as one that succeeds, so a
text that ends with one gives the exit code 0 whatever the last line before it came to.
-/

namespace StoreShell.CommandLine

/-- Whether lines come from other ones when idle lines are put in anywhere. -/
inductive Padded : List String → List String → Prop where
  | nil : Padded [] []
  | keep {line few more} : Padded few more → Padded (line :: few) (line :: more)
  | insert {line few more} : isIdle line → Padded few more → Padded few (line :: more)

/-- Whether there is a last line, and it is idle. -/
def endsIdle (lines : List String) : Bool := lines.getLast?.any isIdle

variable {line : String} {few more : List String}

theorem padded_self (lines : List String) : Padded lines lines := by
  induction lines with
  | nil => exact .nil
  | cons line rest ih => exact .keep ih

theorem Padded.insert_between (idle : isIdle line) (before behind : List String) :
    Padded (before ++ behind) (before ++ line :: behind) := by
  induction before with
  | nil => exact .insert idle (padded_self behind)
  | cons first rest ih => exact .keep ih

/-- Idle lines may follow at the end. -/
theorem Padded.append_idle {behind : List String} (idle : ∀ other ∈ behind, isIdle other)
    (few : List String) : Padded few (few ++ behind) := by
  induction few with
  | cons first rest ih => exact .keep ih
  | nil =>
    induction behind with
    | nil => exact .nil
    | cons line rest ih =>
      exact .insert (idle line (List.mem_cons_self ..))
        (ih fun other member => idle other (List.mem_cons_of_mem _ member))

/-! ### Lines of texts -/

private def unreturned (line : List Char) : List Char :=
  if line.getLast? = some '\r' then line.dropLast else line

/-- Up to a line break, the lines of a text are what is between its line breaks. -/
theorem lines_append (text behind : String) : lines (text ++ "\n" ++ behind) =
    (text.toList.splitOn '\n').map (fun line => String.ofList (unreturned line)) ++
      lines behind := by
  have cut : (text ++ "\n" ++ behind).toList.splitOn '\n' =
      text.toList.splitOn '\n' ++ behind.toList.splitOn '\n' := by
    rw [String.toList_append, String.toList_append, List.append_assoc]
    exact List.splitOn_append_cons_self ..
  have some := List.splitOn_ne_nil '\n' behind.toList
  simp only [lines, cut, List.dropLast_append_of_ne_nil some, List.getLast?_append_of_ne_nil _ some,
    List.map_append, List.append_assoc, List.map_map]
  rfl

private theorem trimBlank_append_singleton (text : List Char) {c : Char} (blank : Text.isBlank c) :
    Text.trimBlank (text ++ [c]) = Text.trimBlank text := by
  rw [Text.trimBlank, Text.trimBlank, List.dropWhile_append]
  cases text.dropWhile Text.isBlank with
  | nil => simp [blank]
  | cons d rest => simp [blank]

private theorem trimBlank_unreturned (line : List Char) :
    Text.trimBlank (unreturned line) = Text.trimBlank line := by
  rw [unreturned]
  split
  · next returned =>
    obtain ⟨before, rfl⟩ := List.getLast?_eq_some_iff.mp returned
    rw [List.dropLast_concat, trimBlank_append_singleton before (by decide)]
  · rfl

private theorem isIdle_unreturned (line : String) :
    isIdle (String.ofList (unreturned line.toList)) = isIdle line := by
  rw [isIdle, String.toList_ofList, trimBlank_unreturned]
  rfl

/-- A line that is put into a text where a line begins is put between its lines. -/
theorem padded_insertLine {before line : String}
    (starts : before = "" ∨ ∃ text, before = text ++ "\n") (single : '\n' ∉ line.toList)
    (idle : isIdle line) (behind : String) :
    Padded (lines (before ++ behind)) (lines (before ++ (line ++ "\n" ++ behind))) := by
  have own : lines (line ++ "\n" ++ behind) =
      String.ofList (unreturned line.toList) :: lines behind := by
    rw [lines_append, List.splitOn_eq_singleton single]
    rfl
  have idle' := (isIdle_unreturned line).trans idle
  rcases starts with rfl | ⟨text, rfl⟩
  · rw [String.empty_append, String.empty_append, own]
    exact .insert idle' (padded_self _)
  · rw [lines_append, lines_append, own]
    exact .insert_between idle' _ _

/-! ### Runs of lines -/

/-- An idle line leaves everything as it is, except that the exit code is 0 again. -/
theorem runAll_cons_of_idle (code : Int) (t : Transcript) (idle : isIdle line) :
    runAll code t (line :: few) = runAll 0 t few := by
  rw [runAll, runOne, if_pos idle]
  rfl

theorem endsIdle_cons (some : few ≠ []) : endsIdle (line :: few) = endsIdle few := by
  rw [endsIdle, endsIdle, List.getLast?_cons_of_ne_nil some]

theorem endsIdle_concat (few : List String) (line : String) :
    endsIdle (few ++ [line]) = isIdle line := by
  rw [endsIdle, List.getLast?_concat, Option.any_some]

/-- What is put into no lines at all is idle up to its end. -/
theorem Padded.endsIdle_of_nil (padded : Padded [] more) (some : more ≠ []) : endsIdle more := by
  generalize none : ([] : List String) = few at padded
  induction padded with
  | nil => exact absurd rfl some
  | keep => cases none
  | @insert line few more idle _ ih =>
    subst none
    rcases List.eq_nil_or_concat more with rfl | ⟨_, _, rfl⟩
    · exact idle
    · rw [endsIdle_cons (by simp)]
      exact ih (by simp) rfl

/-- With idle lines among them, lines do what they do, and a last line that is idle has the last
word. -/
theorem runAll_padded (padded : Padded few more) (code : Int) (t : Transcript) :
    runAll code t more = (runAll code t few).map fun (code, t) =>
      (if endsIdle more then 0 else code, t) := by
  induction padded generalizing code t with
  | nil => rfl
  | @keep line few more padded ih =>
    cases more with
    | nil =>
      cases padded
      by_cases idle : isIdle line
      · rw [runAll_cons_of_idle code t idle]
        simp only [runAll, Option.map_some, ite_self]
      · have busy : endsIdle [line] = false := Bool.eq_false_iff.mpr idle
        simp only [busy]
        exact Option.map_id'.symm
    | cons next behind =>
      rw [runAll, runAll, Option.map_bind, endsIdle_cons (List.cons_ne_nil next behind)]
      congr 1
      funext ⟨code, t⟩
      exact ih code t
  | @insert line few more idle padded ih =>
    rw [runAll_cons_of_idle code t idle, ih]
    cases few with
    | nil =>
      have ends := (padded.insert idle).endsIdle_of_nil (List.cons_ne_nil line more)
      simp only [runAll, Option.map_some, ends, if_true, ite_self]
    | cons first rest =>
      have some : more ≠ [] := by
        rintro rfl
        cases padded
      rw [endsIdle_cons some]
      rfl

/-- A line that is run at the end has the last word. -/
theorem runAll_append_singleton (code : Int) (t : Transcript) (lines : List String)
    (line : String) :
    runAll code t (lines ++ [line]) =
      (runAll code t lines).bind fun (_, t) => runOne t line := by
  induction lines generalizing code t with
  | nil => exact Option.bind_fun_some _
  | cons first rest ih =>
    rw [List.cons_append, runAll, runAll, Option.bind_assoc]
    congr 1
    funext ⟨code, t⟩
    exact ih code t

/-- What idle lines behind the last line that is executed make of its exit code. -/
theorem runAll_of_idle_behind {before behind : List String} (busy : isIdle line = false)
    (idle : ∀ other ∈ behind, isIdle other) (code : Int) (t : Transcript) :
    runAll code t (before ++ line :: behind) =
      ((runAll code t before).bind fun (_, t) => runOne t line).map fun (code, t) =>
        (if behind = [] then code else 0, t) := by
  have padded : Padded (before ++ [line]) (before ++ [line] ++ behind) := .append_idle idle _
  have ends : (endsIdle (before ++ [line] ++ behind) = true) = (behind ≠ []) := by
    rcases List.eq_nil_or_concat' behind with rfl | ⟨rest, last, rfl⟩
    · rw [List.append_nil, endsIdle_concat, busy]
      simp
    · have last_idle := idle last (List.mem_append_right rest (List.mem_singleton_self last))
      rw [← List.append_assoc, endsIdle_concat, last_idle]
      simp
  rw [List.append_cons, runAll_padded padded, runAll_append_singleton]
  simp only [ends, ite_not]

/-! ### Runs of the program -/

/-- How a run begins: with the shell over its store, or with a failure. -/
def begin? (readText : String → Option String) (i : Invocation) : Option (Except String World) :=
  match seeded readText i with
  | .error text => some (.error text)
  | .ok store => preloaded i (worldOf i store)

def shown (ended : Int × Transcript) : ProgramResult :=
  ⟨ended.2.stdout.bytes, ended.2.stderr.bytes, clampCode ended.1⟩

variable {readText readText' : String → Option String} {input input' : String} {i : Invocation}

/-- A run begins, runs its lines, and shows what came of them. -/
theorem run?_eq (source : sourceLines readText i input = .ok few) : run? readText input i =
    (begin? readText i).bind fun
      | .error text => some (failed text)
      | .ok world => (runAll 0 { world } few).map shown := by
  rw [run?, begin?]
  cases seeded readText i with
  | error text => rfl
  | ok store =>
    dsimp only
    rcases preloaded i (worldOf i store) with _ | text | world
    · rfl
    · rfl
    · dsimp only
      rw [source]
      rfl

/-- How a run begins depends on no text but that of the manifest. -/
theorem begin?_congr (seeds : ∀ file ∈ i.seed, readText' file = readText file) :
    begin? readText' i = begin? readText i := by
  have seededAlike : seeded readText' i = seeded readText i := by
    rw [seeded, seeded]
    cases seed : i.seed with
    | none => rfl
    | some file =>
      dsimp only
      rw [seeds file (by rw [seed]; rfl)]
  rw [begin?, begin?, seededAlike]

/-- Idle lines that are put into a script, or into the input, leave a run as it was: its world with
the store, its output and its messages. So they leave its exit code, but for one that is put behind
the last line: then the exit code is 0. In other words, the exit code is that of the last line that
was executed only if there is no idle line behind it. -/
theorem run?_padded (seeds : ∀ file ∈ i.seed, readText' file = readText file)
    (source : sourceLines readText i input = .ok few)
    (source' : sourceLines readText' i input' = .ok more) (padded : Padded few more) :
    (∀ code t, runAll code t more = (runAll code t few).map fun (code, t) =>
      (if endsIdle more then 0 else code, t)) ∧
    (∀ before line behind, more = before ++ line :: behind → isIdle line = false →
      (∀ other ∈ behind, isIdle other) → ∀ code t, runAll code t more =
        ((runAll code t before).bind fun (_, t) => runOne t line).map fun (code, t) =>
          (if behind = [] then code else 0, t)) ∧
    run? readText' input' i = (run? readText input i).map fun r =>
      if (begin? readText i).any Except.isOk && endsIdle more then { r with code := 0 } else r := by
  refine ⟨runAll_padded padded, ?_, ?_⟩
  · rintro before line behind rfl busy idle code t
    exact runAll_of_idle_behind busy idle code t
  · rw [run?_eq source', run?_eq source, begin?_congr seeds]
    rcases begin? readText i with _ | text | world
    · rfl
    · rfl
    · simp only [Option.bind_some, runAll_padded padded 0, Option.map_map]
      congr 1
      funext ⟨code, t⟩
      cases endsIdle more <;> rfl

section Script

private def scripted : Invocation := { script := some "s" }

/-- A comment in front of two lines and a blank line between them, and a comment behind the first
one. -/
theorem run?_padded_inside :
    run? (fun _ => some "# c\nnope\n \ntrue\n") "" scripted =
      run? (fun _ => some "nope\ntrue\n") "" scripted ∧
    ∀ code t, runAll code t ["nope", "# c"] = (runOne t "nope").map fun (_, t) => (0, t) := by
  have inside : Padded ["nope", "true"] ["# c", "nope", " ", "true"] :=
    .insert (by decide +kernel) (.keep (.insert (by decide +kernel) (.keep .nil)))
  have behind : Padded ["nope"] ["nope", "# c"] := .keep (.insert (by decide +kernel) .nil)
  have unseeded (readText readText' : String → Option String) :
      ∀ file ∈ scripted.seed, readText' file = readText file := nofun
  constructor
  · have source : sourceLines (fun _ => some "nope\ntrue\n") scripted "" = .ok ["nope", "true"] := by
      decide +kernel
    have source' : sourceLines (fun _ => some "# c\nnope\n \ntrue\n") scripted "" =
        .ok ["# c", "nope", " ", "true"] := by
      decide +kernel
    obtain ⟨-, -, same⟩ := run?_padded (unseeded _ _) source source' inside
    have ends : endsIdle ["# c", "nope", " ", "true"] = false := by decide +kernel
    rw [same, ends]
    simp only [Bool.and_false, Bool.false_eq_true, if_false, Option.map_id']
  · have source : sourceLines (fun _ => some "nope\n") scripted "" = .ok ["nope"] := by
      decide +kernel
    have source' : sourceLines (fun _ => some "nope\n# c") scripted "" = .ok ["nope", "# c"] := by
      decide +kernel
    obtain ⟨-, last, -⟩ := run?_padded (unseeded _ _) source source' behind
    exact last [] "nope" ["# c"] rfl (by decide +kernel)
      (fun other member => List.mem_singleton.mp member ▸ by decide +kernel)

/-- A script whose only command is unknown fails, and with a blank line behind it succeeds. -/
theorem exists_hidden_failure :
    Padded (lines "nope\n") (lines "nope\n\n") ∧
    (run? (fun _ => some "nope\n") "" scripted).map ProgramResult.code = some 127 ∧
    (run? (fun _ => some "nope\n\n") "" scripted).map ProgramResult.code = some 0 := by
  refine ⟨?_, by decide +kernel, by decide +kernel⟩
  have idle : isIdle "" := by decide +kernel
  have starts : "nope\n" = "" ∨ ∃ text, "nope\n" = text ++ "\n" := Or.inr ⟨"nope", rfl⟩
  exact padded_insertLine starts (by decide) idle ""

end Script

end StoreShell.CommandLine
