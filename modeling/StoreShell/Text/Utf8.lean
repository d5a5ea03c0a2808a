import StoreShell.Text.Bytes

/-!
# UTF-8

Texts as bytes and bytes as text. Reading is a machine that is fed one byte at a time. It holds at
most one character begun, together with the range that the next byte has to be in; a byte outside
that range ends the character as a broken one and is looked at afresh. So a broken part is as long
as it can be and still begin a character, and `Utf8.decodeLossy` writes one replacement character
for each.
-/

namespace StoreShell.Text.Utf8

def encode (text : String) : Bytes :=
  text.toList.flatMap String.utf8EncodeChar

/-- What a run of bytes stands for: a character, or a part that begins no character. -/
inductive Piece where
  | char (c : Char)
  | broken
  deriving DecidableEq, Repr

/-- The character that a piece is, if it is one. -/
def Piece.char? : Piece → Option Char
  | .char c => some c
  | .broken => none

/-- The character that a piece is shown as: U+FFFD for a broken one. -/
def Piece.shown (p : Piece) : Char :=
  p.char?.getD '\uFFFD'

/-- A character whose bytes have not all come: the bits so far, how many bytes are to come, and the
range of the next one. -/
structure Begun where
  bits : Nat
  toCome : Nat
  low : Nat
  high : Nat
  deriving DecidableEq, Repr

/-- The machine between two bytes. The pieces found are held last first. -/
structure Reader where
  found : List Piece
  begun : Option Begun

namespace Reader

def start : Reader := ⟨[], none⟩

/-- Takes the first byte of a character. -/
def lead (r : Reader) (b : Nat) : Reader :=
  if b < 0x80 then { r with found := .char (Char.ofNat b) :: r.found }
  else if b < 0xC2 then { r with found := .broken :: r.found }
  else if b < 0xE0 then { r with begun := some ⟨b % 32, 1, 0x80, 0xBF⟩ }
  else if b = 0xE0 then { r with begun := some ⟨0, 2, 0xA0, 0xBF⟩ }
  else if b = 0xED then { r with begun := some ⟨13, 2, 0x80, 0x9F⟩ }
  else if b < 0xF0 then { r with begun := some ⟨b % 16, 2, 0x80, 0xBF⟩ }
  else if b = 0xF0 then { r with begun := some ⟨0, 3, 0x90, 0xBF⟩ }
  else if b < 0xF4 then { r with begun := some ⟨b % 8, 3, 0x80, 0xBF⟩ }
  else if b = 0xF4 then { r with begun := some ⟨4, 3, 0x80, 0x8F⟩ }
  else { r with found := .broken :: r.found }

def feed (r : Reader) (byte : UInt8) : Reader :=
  let b := byte.toNat
  match r.begun with
  | none => r.lead b
  | some c =>
    if c.low ≤ b && b ≤ c.high then
      let bits := c.bits * 64 + b % 64
      if c.toCome = 1 then ⟨.char (Char.ofNat bits) :: r.found, none⟩
      else ⟨r.found, some ⟨bits, c.toCome - 1, 0x80, 0xBF⟩⟩
    else lead ⟨.broken :: r.found, none⟩ b

/-- The pieces in their order; a character still begun at the end is a broken one. -/
def pieces (r : Reader) : List Piece :=
  match r.begun with
  | none => r.found.reverse
  | some _ => (.broken :: r.found).reverse

end Reader

/-- Cuts bytes into characters and broken parts. -/
def pieces (bytes : Bytes) : List Piece :=
  (bytes.foldl Reader.feed Reader.start).pieces

/-- The text that bytes stand for, if every part of them is a character. -/
def decode? (bytes : Bytes) : Option String :=
  ((pieces bytes).mapM Piece.char?).map String.ofList

/-- The text that bytes stand for, with U+FFFD for each broken part. -/
def decodeLossy (bytes : Bytes) : String :=
  String.ofList ((pieces bytes).map Piece.shown)

end StoreShell.Text.Utf8
