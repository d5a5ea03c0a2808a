import StoreShell.Chain
import StoreShell.Failure
import StoreShell.Token.Lexer

/-!
# Chains from tokens

Chain operators split the tokens into groups and `|` splits a group into the tokens of one command
each. Groups without tokens are dropped; a command without tokens is a failure. Input may be
redirected for the first command of a pipeline only, output and error output for the last one only.
-/

namespace StoreShell

def TokenKind.connector? : TokenKind → Option Connector
  | .and => some .and
  | .or => some .or
  | .semicolon => some .sequence
  | _ => none

namespace Segment

/-- Where a command stands in its pipeline. -/
structure Position where
  isFirst : Bool
  isLast : Bool
  deriving DecidableEq, Repr

/-- What a redirection with a file does to a command. -/
def redirect (s : Segment) (kind : TokenKind) (path : String) : Segment :=
  match kind with
  | .redirectIn => { s with input := some path }
  | .redirectOut => { s with output := some ⟨path, false⟩ }
  | .redirectAppend => { s with output := some ⟨path, true⟩ }
  | .redirectErr => { s with error := some ⟨path, false⟩, mergeErr := false }
  | .redirectErrAppend => { s with error := some ⟨path, true⟩, mergeErr := false }
  | .redirectAll => { s with output := some ⟨path, false⟩, error := none, mergeErr := true }
  | _ => s

/-- Why a redirection may not stand at a position, if it may not. -/
def misplaced? (position : Position) (t : Token) : Option Failure :=
  if t.kind = .redirectIn then
    if position.isFirst then none
    else some <| .malformed
      s!"input redirection '{t.text}' only allowed on first command of pipeline"
  else if position.isLast then none
  else some <| .malformed
    s!"output redirection '{t.text}' only allowed on last command of pipeline"

/-- Reads the tokens of one command. The first word that is no file of a redirection is its name. -/
def read (position : Position) (name : Option String) (s : Segment) :
    List Token → Except Failure Segment
  | [] =>
    match name with
    | some name => .ok { s with name }
    | none => .error (.malformed "missing command name")
  | t :: rest =>
    match t.kind with
    | .word =>
      match name with
      | none => read position (some t.text) s rest
      | some _ => read position name { s with args := s.args ++ [⟨t.text, t.quoted⟩] } rest
    | .redirectErrToOut => read position name { s with mergeErr := true, error := none } rest
    | kind =>
      match misplaced? position t with
      | some failure => .error failure
      | none =>
        match rest with
        | file :: rest =>
          if file.isWord then
            if kind.isRedirect then read position name (s.redirect kind file.text) rest
            else .error (.internal s!"unexpected {kind.name} token in segment")
          else .error (.malformed s!"missing filename after '{t.text}'")
        | [] => .error (.malformed s!"missing filename after '{t.text}'")

def ofTokens (position : Position) (tokens : List Token) : Except Failure Segment :=
  read position none { name := "" } tokens

end Segment

namespace Pipeline

/-- Reads the commands of a pipeline, given whether the next one is the first. -/
def read (isFirst : Bool) : List (List Token) → Except Failure (List Segment)
  | [] => .ok []
  | slice :: rest => do
    let segment ← Segment.ofTokens ⟨isFirst, rest.isEmpty⟩ slice
    let segments ← read false rest
    return segment :: segments

def ofTokens (tokens : List Token) : Except Failure Pipeline :=
  let slices := tokens.splitOnP (·.kind = .pipe)
  if slices.any List.isEmpty then .error (.malformed "unexpected token `|`")
  else (read true slices).map Pipeline.mk

end Pipeline

namespace Chain

/-- Cuts tokens at the chain operators: each group with what follows it. -/
def groups (group : List Token) : List Token → List (List Token × Connector)
  | [] => [(group.reverse, .last)]
  | t :: rest =>
    match t.kind.connector? with
    | some connector => (group.reverse, connector) :: groups [] rest
    | none => groups (t :: group) rest

/-- Nothing follows the last link, whatever operator stood behind it. -/
def closeLast : List Link → List Link
  | [] => []
  | [link] => [{ link with connector := .last }]
  | link :: rest => link :: closeLast rest

def ofTokens (tokens : List Token) : Except Failure Chain := do
  let filled := (groups [] tokens).filter fun (group, _) => !group.isEmpty
  let links ← filled.mapM fun (group, connector) =>
    (Pipeline.ofTokens group).map fun pipeline => Link.mk pipeline connector
  return ⟨closeLast links⟩

def ofLine (line : String) : Except Failure Chain := do
  ofTokens (← tokenize line)

end Chain

end StoreShell
