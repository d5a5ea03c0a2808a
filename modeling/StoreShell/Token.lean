/-!
# Tokens

The words and operators that a line is made of.
-/

namespace StoreShell

/-- What a token is. -/
inductive TokenKind where
  | word
  /-- `|` -/
  | pipe
  /-- `<` -/
  | redirectIn
  /-- `>` -/
  | redirectOut
  /-- `>>` -/
  | redirectAppend
  /-- `2>` -/
  | redirectErr
  /-- `2>>` -/
  | redirectErrAppend
  /-- `2>&1` -/
  | redirectErrToOut
  /-- `&>` or `>&` -/
  | redirectAll
  /-- `&&` -/
  | and
  /-- `||` -/
  | or
  /-- `;` -/
  | semicolon
  deriving DecidableEq, Repr

namespace TokenKind

/-- Chain operators stand between pipelines. -/
def isChainOperator : TokenKind → Bool
  | .and | .or | .semicolon => true
  | _ => false

/-- Redirections belong to one command. -/
def isRedirect : TokenKind → Bool
  | .redirectIn | .redirectOut | .redirectAppend | .redirectErr | .redirectErrAppend
  | .redirectErrToOut | .redirectAll => true
  | _ => false

def name : TokenKind → String
  | .word => "Word"
  | .pipe => "Pipe"
  | .redirectIn => "RedirectIn"
  | .redirectOut => "RedirectOut"
  | .redirectAppend => "RedirectAppend"
  | .redirectErr => "RedirectErr"
  | .redirectErrAppend => "RedirectErrAppend"
  | .redirectErrToOut => "RedirectErrToOut"
  | .redirectAll => "RedirectAll"
  | .and => "And"
  | .or => "Or"
  | .semicolon => "Semicolon"

end TokenKind

/-- A token. The text of a word is what remains after quotes and escapes are resolved; a word is
quoted when a part of it stood in quotes. -/
structure Token where
  kind : TokenKind
  text : String
  quoted : Bool := false
  deriving DecidableEq, Repr

namespace Token

def word (text : String) (quoted : Bool) : Token := ⟨.word, text, quoted⟩

def isWord (t : Token) : Bool := t.kind = .word

end Token

end StoreShell
