import StoreShell.Execution
import StoreShell.Manifest

/-!
# The command line

What the program does with its arguments, the files that they name, and its input: everything it
writes, and its exit code. Lines come from the option `-c`, else from a script, else from the input.
The store is empty unless a manifest fills it.
-/

namespace StoreShell

/-- What the arguments of the program say. -/
structure Invocation where
  command : Option String := none
  script : Option String := none
  seed : Option String := none
  area : Area := {}
  cwd : Option String := none
  prefetch : Bool := true
  preloadDepth : Nat := 0
  logsLines : Bool := false
  deriving DecidableEq, Repr

namespace Invocation

def withOption (i : Invocation) (name value : String) : Option Invocation :=
  match name with
  | "-c" => some { i with command := some value }
  | "--seed" => some { i with seed := some value }
  | "--tenant" => some { i with area.tenant := some value }
  | "--cwd" => some { i with cwd := some value }
  | "--preload-depth" => (Text.natural? value).map fun depth => { i with preloadDepth := depth }
  | _ => none

def withFlag (i : Invocation) (name : String) : Option Invocation :=
  match name with
  | "--vault" => some { i with area.vault := true }
  | "--no-prefetch" => some { i with prefetch := false }
  | "--log-lines" => some { i with logsLines := true }
  | _ => none

def splitOption (arg : String) : Option (String × String) :=
  match arg.toList with
  | '-' :: 'c' :: '=' :: value => some ("-c", String.ofList value)
  | '-' :: 'c' :: c :: value => some ("-c", String.ofList (c :: value))
  | '-' :: '-' :: rest =>
    match rest.dropWhile (· ≠ '=') with
    | '=' :: value => some ("--" ++ String.ofList (rest.takeWhile (· ≠ '=')), String.ofList value)
    | _ => none
  | _ => none

/-- Reads arguments, given whether options may still come. -/
def read (options : Bool) (i : Invocation) : List String → Option Invocation
  | [] => some i
  | arg :: rest =>
    if options && arg = "--" then read false i rest
    else if options && arg.toList.head? == some '-' && arg ≠ "-" then
      match i.withFlag arg with
      | some i => read options i rest
      | none =>
        match splitOption arg with
        | some (name, value) => (i.withOption name value).bind fun i => read options i rest
        | none =>
          match rest with
          | [] => none
          | value :: rest => (i.withOption arg value).bind fun i => read options i rest
    else if i.script.isSome then none
    else read options { i with script := some arg } rest

/-- What arguments say, if they can be understood. -/
def ofArgs (args : List String) : Option Invocation := read true {} args

def settings (i : Invocation) : Settings :=
  { prefetchOnCd := i.prefetch
    preloadDepth := if 0 < i.preloadDepth then i.preloadDepth else ({} : Settings).preloadDepth }

end Invocation

/-- What the program wrote, and the state of its shell. -/
structure Transcript where
  world : World
  stdout : Chunks := {}
  stderr : Chunks := {}

/-- Everything that a run of the program shows. -/
structure ProgramResult where
  stdout : Bytes := []
  stderr : Bytes := []
  code : Int
  deriving DecidableEq, Repr

namespace CommandLine

def report (text : String) : Bytes := Text.Utf8.encode s!"remsh: {text}"

def worldOf (i : Invocation) (store : Store) : World :=
  let w : World := { settings := i.settings, remotes := [{ store }] }
  let w := w.switchArea i.area none
  match i.cwd with
  | none => w
  | some cwd => w.setCwd cwd

/-- Fills the store as the manifest says, if one is given: the store, or the failure. -/
def seeded (readText : String → Option String) (i : Invocation) : Except String Store :=
  match i.seed with
  | none => .ok .empty
  | some file =>
    match readText file with
    | none => .error s!"Failed to read seed manifest: {file}"
    | some text =>
      match Manifest.ofText? text with
      | none => .error s!"Invalid seed manifest: {file}"
      | some manifest => .ok (manifest.fill .empty)

/-- Lists folders before the first line, if that is wanted. -/
def preloaded (i : Invocation) (w : World) : Option (Except String World) :=
  if i.preloadDepth = 0 then some (.ok w)
  else
    (w.run? (Task.preload w.cache w.remote Path.root i.preloadDepth).toScript).map
      fun (result, w) =>
        match result with
        | .ok _ => .ok w
        | .error _ => .error "Failed to preload folder tree"

/-- Whether a line holds nothing to be run. -/
def isIdle (line : String) : Bool :=
  match Text.trimBlank line.toList with
  | [] => true
  | c :: _ => c = '#'

/-- Runs a line: its exit code. -/
def runOne (t : Transcript) (line : String) : Option (Int × Transcript) :=
  if isIdle line then some (0, t)
  else
    (runLine .standard line ⟨t.world, .willing⟩).map fun (verdict, stage) =>
      let out := stage.outlets.callers.out.received.bytes
      let err := stage.outlets.callers.err.received.bytes
      let told : Bytes := match verdict with
        | .ok _ => []
        | .error failure => report (failure.message ++ "\n")
      (verdict.exitCode,
        ⟨stage.world.runBackground, t.stdout.push out, (t.stderr.push err).push told⟩)

/-- Runs lines: the exit code of the last one. -/
def runAll (code : Int) (t : Transcript) : List String → Option (Int × Transcript)
  | [] => some (code, t)
  | line :: rest => (runOne t line).bind fun (code, t) => runAll code t rest

/-- The lines of a text. A carriage return in front of a line break belongs to the break. -/
def lines (text : String) : List String :=
  let pieces := text.toList.splitOn '\n'
  let ended := pieces.dropLast.map fun line =>
    if line.getLast? = some '\r' then line.dropLast else line
  let last := (pieces.getLast?.getD [])
  (ended ++ if last.isEmpty then [] else [last]).map String.ofList

def sourceLines (readText : String → Option String) (i : Invocation) (input : String) :
    Except String (List String) :=
  match i.command, i.script with
  | some line, _ => .ok [line]
  | none, some script =>
    match readText script with
    | none => .error s!"Failed to read script: {script}"
    | some text => .ok (lines text)
  | none, none => .ok (lines input)

def failed (text : String) : ProgramResult := { stderr := report text, code := 1 }

/-- An exit code is a number from 0 to 255. -/
def clampCode (code : Int) : Int := max 0 (min code 255)

/-- Runs the program, if it ever ends. The texts of files are given by name, as far as there are
such. -/
def run? (readText : String → Option String) (input : String) (i : Invocation) :
    Option ProgramResult :=
  match seeded readText i with
  | .error text => some (failed text)
  | .ok store =>
    match preloaded i (worldOf i store) with
    | none => none
    | some (.error text) => some (failed text)
    | some (.ok world) =>
      match sourceLines readText i input with
      | .error text => some (failed text)
      | .ok lines =>
        (runAll 0 { world } lines).map fun (code, t) =>
          ⟨t.stdout.bytes, t.stderr.bytes, clampCode code⟩

def misused : ProgramResult :=
  { stderr := Text.Utf8.encode "remsh: unexpected arguments\n", code := 2 }

/-- Runs the program with its arguments. -/
def runArgs? (readText : String → Option String) (input : String) (args : List String) :
    Option ProgramResult :=
  match Invocation.ofArgs args with
  | none => some misused
  | some i => run? readText input i

end CommandLine

end StoreShell
