import StoreShell.Token

/-!
# Chains

What a line asks for: a chain of pipelines joined by `&&`, `||` and `;`, each pipeline a row of
commands joined by `|`, each command with its arguments and redirections.
-/

namespace StoreShell

/-- An argument after quotes are resolved. -/
structure Word where
  text : String
  quoted : Bool
  deriving DecidableEq, Repr

/-- Where a redirected output goes. -/
structure Target where
  path : String
  append : Bool
  deriving DecidableEq, Repr

/-- One command of a pipeline. -/
structure Segment where
  name : String
  args : List Word := []
  input : Option String := none
  output : Option Target := none
  error : Option Target := none
  /-- Error output follows the output. -/
  mergeErr : Bool := false
  deriving DecidableEq, Repr

def Segment.hasRedirects (s : Segment) : Bool :=
  s.input.isSome || s.output.isSome || s.error.isSome || s.mergeErr

/-- Commands joined by `|`. -/
structure Pipeline where
  segments : List Segment
  deriving DecidableEq, Repr

def Pipeline.names (p : Pipeline) : List String := p.segments.map Segment.name

/-- What follows a pipeline in a chain. -/
inductive Connector where
  /-- Nothing: the pipeline is the last one. -/
  | last
  /-- `&&` -/
  | and
  /-- `||` -/
  | or
  /-- `;` -/
  | sequence
  deriving DecidableEq, Repr

/-- Whether the pipeline behind a connector runs, given whether things have failed so far. -/
def Connector.allowsNext (c : Connector) (failed : Bool) : Bool :=
  match c with
  | .and => !failed
  | .or => failed
  | .sequence | .last => true

/-- A pipeline and what follows it. -/
structure Link where
  pipeline : Pipeline
  connector : Connector
  deriving DecidableEq, Repr

/-- Pipelines joined by connectors. -/
structure Chain where
  links : List Link
  deriving DecidableEq, Repr

end StoreShell
