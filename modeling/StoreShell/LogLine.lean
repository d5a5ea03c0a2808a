import StoreShell.Text.Blank

/-!
# Lines in the log

What a log says about a line that was read. Unless its content is wanted, only its size and the
number of its tokens are told. Content is made safe, so that one line of input is one line of the
log, and is cut when it has too many bytes.
-/

namespace StoreShell

/-- What a log may say about lines. -/
structure LogPolicy where
  /-- Whether the content of lines is shown. -/
  showsContent : Bool := false
  /-- The most bytes of content shown. -/
  maxBytes : Nat := 200
  deriving DecidableEq, Repr

namespace LogLine

def byteCount : List Char → Nat
  | [] => 0
  | c :: rest => c.utf8Size + byteCount rest

/-- The longest beginning of a text with at most so many bytes. -/
def takeBytes (room : Nat) : List Char → List Char
  | [] => []
  | c :: rest => if c.utf8Size ≤ room then c :: takeBytes (room - c.utf8Size) rest else []

/-- A text cut to at most `maxBytes` bytes, with a note of how many are missing. -/
def truncate (maxBytes : Nat) (text : String) : String :=
  let cs := text.toList
  if byteCount cs ≤ maxBytes then text
  else
    let shown := takeBytes maxBytes cs
    String.ofList shown ++ s!"...[truncated {byteCount cs - byteCount shown} bytes]"

/-- What a character is shown as: line breaks and tabs by their escapes, other control characters
not at all. -/
def safeChar (c : Char) : List Char :=
  if c = '\n' then ['\\', 'n']
  else if c = '\r' then ['\\', 'r']
  else if c = '\t' then ['\\', 't']
  else if Text.isControl c then []
  else [c]

def sanitize (text : String) : String :=
  String.ofList (text.toList.flatMap safeChar)

/-- What the log says about a line with so many tokens. -/
def describe (policy : LogPolicy) (line : String) (tokens : Nat) : String :=
  if policy.showsContent then truncate policy.maxBytes (sanitize line)
  else s!"[line: {byteCount line.toList} bytes, {tokens} tokens]"

end LogLine

end StoreShell
