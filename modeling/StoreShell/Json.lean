import StoreShell.Text.Hex

/-!
# JSON

Reading JSON text as RFC 8259 defines it. What numbers are is not kept, for nothing here needs it. A
text in quotes may hold an escape for half of a character; such a text is read and has no value.
-/

namespace StoreShell

/-- A JSON value. Members of an object are in the order of the text. -/
inductive Json where
  | null
  | bool (b : Bool)
  | number
  /-- A text, or none if an escape stands for half of a character. -/
  | text (value : Option String)
  | array (items : List Json)
  | object (members : List (Option String × Json))

namespace Json

/-- The characters that may stand between tokens. -/
def isSpace (c : Char) : Bool := c = ' ' || c = '\t' || c = '\n' || c = '\r'

def skip (cs : List Char) : List Char := cs.dropWhile isSpace

/-- The character that a letter behind a backslash stands for. -/
def escape? (c : Char) : Option Char :=
  [('"', '"'), ('\\', '\\'), ('/', '/'), ('b', '\x08'), ('f', '\x0c'), ('n', '\n'), ('r', '\r'),
    ('t', '\t')].lookup c

/-- Reads four hexadecimal digits. -/
def unit? : List Char → Option (Nat × List Char)
  | a :: b :: c :: d :: rest => do
    let number ← [a, b, c, d].foldlM (fun n digit => (n * 16 + ·) <$> Text.Hex.value? digit) 0
    return (number, rest)
  | _ => none

/-- A part of a text in quotes: a character, or an escaped unit of UTF-16. -/
inductive Piece where
  | char (c : Char)
  | unit (n : Nat)

/-- Reads up to the closing quote: the parts, last first, and what follows. The number bounds how
many parts there are. -/
def pieces? : Nat → List Piece → List Char → Option (List Piece × List Char)
  | 0, _, _ => none
  | fuel + 1, sofar, cs =>
    match cs with
    | [] => none
    | '"' :: rest => some (sofar, rest)
    | '\\' :: 'u' :: rest =>
      match unit? rest with
      | none => none
      | some (n, rest) => pieces? fuel (.unit n :: sofar) rest
    | '\\' :: c :: rest =>
      match escape? c with
      | none => none
      | some c => pieces? fuel (.char c :: sofar) rest
    | c :: rest => if c.toNat < 0x20 || c = '\\' then none else pieces? fuel (.char c :: sofar) rest

/-- The characters that parts in order stand for. A unit of the upper half of a pair needs one of
the lower half behind it. -/
def joinPieces : List Piece → Option (List Char)
  | [] => some []
  | .char c :: rest => (c :: ·) <$> joinPieces rest
  | .unit high :: .unit low :: rest =>
    if 0xD800 ≤ high && high < 0xDC00 then
      if 0xDC00 ≤ low && low < 0xE000 then
        (Char.ofNat (0x10000 + (high - 0xD800) * 0x400 + (low - 0xDC00)) :: ·) <$> joinPieces rest
      else none
    else if 0xDC00 ≤ high && high < 0xE000 then none
    else (Char.ofNat high :: ·) <$> joinPieces (.unit low :: rest)
  | .unit n :: rest =>
    if 0xD800 ≤ n && n < 0xE000 then none else (Char.ofNat n :: ·) <$> joinPieces rest

def text? (cs : List Char) : Option (Option String × List Char) :=
  (pieces? (cs.length + 1) [] cs).map fun (pieces, rest) =>
    ((joinPieces pieces.reverse).map String.ofList, rest)

def digits? (cs : List Char) : Option (List Char) :=
  match cs with
  | c :: rest => if c.isDigit then some (rest.dropWhile Char.isDigit) else none
  | [] => none

/-- What follows the integer part of a number, which has no zero in front. -/
def integerPart? (cs : List Char) : Option (List Char) :=
  match cs with
  | '0' :: '0' :: _ => none
  | '0' :: rest => if rest.head?.any Char.isDigit then none else some rest
  | cs => digits? cs

def fractionPart? (cs : List Char) : Option (List Char) :=
  match cs with
  | '.' :: rest => digits? rest
  | cs => some cs

def exponentPart? (cs : List Char) : Option (List Char) :=
  match cs with
  | c :: rest =>
    if c = 'e' || c = 'E' then
      match rest with
      | '+' :: rest => digits? rest
      | '-' :: rest => digits? rest
      | rest => digits? rest
    else some (c :: rest)
  | [] => some []

def number? (cs : List Char) : Option (List Char) := do
  let unsigned := match cs with
    | '-' :: rest => rest
    | cs => cs
  exponentPart? (← fractionPart? (← integerPart? unsigned))

mutual

/-- Reads a value. The number bounds how deep and how long it is. -/
def value? : Nat → List Char → Option (Json × List Char)
  | 0, _ => none
  | fuel + 1, cs =>
    match cs with
    | '{' :: rest =>
      match skip rest with
      | '}' :: rest => some (.object [], rest)
      | rest => (members? fuel [] rest).map fun (members, rest) => (.object members, rest)
    | '[' :: rest =>
      match skip rest with
      | ']' :: rest => some (.array [], rest)
      | rest => (items? fuel [] rest).map fun (items, rest) => (.array items, rest)
    | '"' :: rest => (text? rest).map fun (value, rest) => (.text value, rest)
    | 't' :: 'r' :: 'u' :: 'e' :: rest => some (.bool true, rest)
    | 'f' :: 'a' :: 'l' :: 's' :: 'e' :: rest => some (.bool false, rest)
    | 'n' :: 'u' :: 'l' :: 'l' :: rest => some (.null, rest)
    | cs => (number? cs).map fun rest => (.number, rest)

/-- Reads the items of an array up to its end, the earlier ones being given last first. -/
def items? : Nat → List Json → List Char → Option (List Json × List Char)
  | 0, _, _ => none
  | fuel + 1, sofar, cs => do
    let (item, rest) ← value? fuel (skip cs)
    match skip rest with
    | ',' :: rest => items? fuel (item :: sofar) rest
    | ']' :: rest => some ((item :: sofar).reverse, rest)
    | _ => none

/-- Reads the members of an object up to its end, the earlier ones being given last first. -/
def members? : Nat → List (Option String × Json) → List Char →
    Option (List (Option String × Json) × List Char)
  | 0, _, _ => none
  | fuel + 1, sofar, cs =>
    match skip cs with
    | '"' :: rest => do
      let (key, rest) ← text? rest
      match skip rest with
      | ':' :: rest =>
        let (value, rest) ← value? fuel (skip rest)
        match skip rest with
        | ',' :: rest => members? fuel ((key, value) :: sofar) rest
        | '}' :: rest => some (((key, value) :: sofar).reverse, rest)
        | _ => none
      | _ => none
    | _ => none

end

/-- Reads a text that holds one value and nothing else. -/
def ofText? (text : String) : Option Json :=
  let cs := text.toList
  match value? (cs.length + 1) (skip cs) with
  | some (value, rest) => if (skip rest).isEmpty then some value else none
  | none => none

end Json

end StoreShell
