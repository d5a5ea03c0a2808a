/-!
# Failures

Everything that can go wrong while a line is read, expanded and run. `Failure.message` is the text
that a user sees and `Failure.exitCode` the number that a line ends with.
-/

namespace StoreShell

/-- What kind of trouble a byte stream is in. -/
inductive StreamTrouble where
  /-- The other end of the stream is gone. -/
  | brokenPipe
  | notFound
  | other
  deriving DecidableEq, Repr

/-- A stream that could not be written or flushed. -/
structure StreamError where
  trouble : StreamTrouble
  message : String
  deriving DecidableEq, Repr

/-- A write to a pipe that nobody reads any more. -/
def StreamError.brokenPipe : StreamError := ⟨.brokenPipe, "broken pipe"⟩

/-- Why a line, a pipeline or a command failed. -/
inductive Failure where
  /-- The line has no reading as words; the column counts characters from 1. -/
  | lexical (message : String) (column : Nat)
  /-- The words and operators of the line form no chain. -/
  | malformed (message : String)
  /-- The folder that a pattern needs could not be listed. -/
  | expansion (pattern reason : String)
  | commandNotFound (name : String)
  | notFound (path : String)
  | isDirectory (path : String)
  | notADirectory (path : String)
  | alreadyExists (path : String)
  /-- A command that ended unsuccessfully without a further cause. -/
  | exitStatus (code : Int)
  | usage (form : String)
  /-- The failure of one command of a pipeline that has several. -/
  | inSegment (command : String) (cause : Failure)
  | stream (error : StreamError)
  /-- The store refused. -/
  | remote (message : String)
  | cancelled
  | internal (message : String)
  deriving DecidableEq, Repr

instance decidableEqExcept {ε α : Type} [DecidableEq ε] [DecidableEq α] : DecidableEq (Except ε α)
  | .ok a, .ok b => decidable_of_iff (a = b) (by simp)
  | .error e, .error d => decidable_of_iff (e = d) (by simp)
  | .ok _, .error _ => isFalse (by simp)
  | .error _, .ok _ => isFalse (by simp)

/-- How a command, a pipeline or a line ended. -/
abbrev Verdict := Except Failure Unit

namespace Failure

def message : Failure → String
  | .lexical message column => s!"syntax error at column {column}: {message}"
  | .malformed message => s!"syntax error: {message}"
  | .expansion pattern reason => s!"cannot expand '{pattern}': {reason}"
  | .commandNotFound name => s!"command not found: {name}"
  | .notFound path => s!"{path}: no such file or directory"
  | .isDirectory path => s!"{path}: is a directory"
  | .notADirectory path => s!"{path}: not a directory"
  | .alreadyExists path => s!"{path}: already exists"
  | .exitStatus code => s!"exit status {code}"
  | .usage form => s!"usage: {form}"
  | .inSegment command cause => s!"{command}: {cause.message}"
  | .stream error => s!"io error: {error.message}"
  | .remote message => s!"remote error: {message}"
  | .cancelled => "operation cancelled"
  | .internal message => s!"internal error: {message}"

def exitCode : Failure → Int
  | .exitStatus code => code
  | .inSegment _ cause => cause.exitCode
  | .lexical .. | .malformed _ => 2
  | .commandNotFound _ => 127
  | _ => 1

/-- Whether a path that does not exist is the cause. -/
def isNotFound : Failure → Bool
  | .notFound _ => true
  | .inSegment _ cause => cause.isNotFound
  | .stream error => error.trouble = .notFound
  | _ => false

/-- Whether the line could not be cut into words. -/
def isLexical : Failure → Bool
  | .lexical .. => true
  | _ => false

/-- Whether the words of the line could not be grouped. -/
def isMalformed : Failure → Bool
  | .malformed _ => true
  | _ => false

/-- Whether a stream was written after its other end was gone. -/
def isBrokenPipe : Failure → Bool
  | .stream error => error.trouble = .brokenPipe
  | _ => false

end Failure

def Verdict.exitCode : Verdict → Int
  | .ok _ => 0
  | .error failure => failure.exitCode

end StoreShell
