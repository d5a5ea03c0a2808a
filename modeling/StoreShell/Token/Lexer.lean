import StoreShell.Failure
import StoreShell.Text.Blank
import StoreShell.Token

/-!
# Cutting a line into tokens

Blanks separate words, and an operator ends the word in front of it. A single quote takes everything
up to the next one, a double quote too except that a backslash there takes one of four characters
with it, and a plain backslash takes any character. A quote that is never closed and a backslash at
the end of the line are the only faults.

The scanner walks down the characters still to be read. A fault is reported by how many characters
were left at the quote or backslash in question, which does not depend on what came before; the
column follows from it and the length of the line.
-/

namespace StoreShell.Lexer

/-- The operators, in the order in which they are tried. -/
def operators : List (String × TokenKind) :=
  [("&&", .and), ("||", .or), ("|", .pipe), (";", .semicolon), ("2>&1", .redirectErrToOut),
    ("2>>", .redirectErrAppend), ("2>", .redirectErr), ("&>", .redirectAll), (">&", .redirectAll),
    (">>", .redirectAppend), (">", .redirectOut), ("<", .redirectIn)]

/-- What a backslash may escape between double quotes. -/
def escapable : List Char := ['"', '\\', '$', '`']

/-- Why a line cannot be cut into tokens. -/
inductive Cause where
  | openSingleQuote
  | openDoubleQuote
  | trailingBackslash
  deriving DecidableEq, Repr

def Cause.message : Cause → String
  | .openSingleQuote => "unterminated single quote"
  | .openDoubleQuote => "unterminated double quote"
  | .trailingBackslash => "trailing backslash"

/-- A cause with the number of characters left where it was met, that one included. -/
structure Fault where
  cause : Cause
  left : Nat
  deriving DecidableEq, Repr

/-- A word that is being read, its characters last first. It may be empty and still be a word. -/
structure OpenWord where
  reversed : List Char := []
  quoted : Bool := false
  deriving DecidableEq, Repr

/-- One more plain character, which begins a word if there is none. -/
def OpenWord.push (word : Option OpenWord) (c : Char) : Option OpenWord :=
  let w := word.getD {}
  some { w with reversed := c :: w.reversed }

/-- More quoted characters, given last first. -/
def OpenWord.append (word : Option OpenWord) (reversed : List Char) : Option OpenWord :=
  some ⟨reversed ++ (word.getD {}).reversed, true⟩

/-- The token of a word that has ended, if there was one. -/
def OpenWord.tokens : Option OpenWord → List Token
  | none => []
  | some w => [.word (String.ofList w.reversed.reverse) w.quoted]

/-- Whether an operator can stand here: one that begins with a digit only where a word could
begin. -/
def fits (inWord : Bool) (text : List Char) : Bool :=
  !(inWord && text.head? == some '2')

/-- The operator that the characters begin with and what follows it. -/
def operator? (inWord : Bool) (cs : List Char) : Option (Token × List Char) :=
  operators.findSome? fun (text, kind) =>
    if fits inWord text.toList && text.toList.isPrefixOf cs then
      some (⟨kind, text, false⟩, cs.drop text.toList.length)
    else none

/-- Reads up to the closing single quote: the characters last first, and what follows. -/
def singleQuoted? (reversed : List Char) : List Char → Option (List Char × List Char)
  | [] => none
  | '\'' :: rest => some (reversed, rest)
  | c :: rest => singleQuoted? (c :: reversed) rest

/-- Reads up to the closing double quote: the characters last first, and what follows. -/
def doubleQuoted? (reversed : List Char) : List Char → Option (List Char × List Char)
  | [] => none
  | '"' :: rest => some (reversed, rest)
  | '\\' :: c :: rest =>
    if c ∈ escapable then doubleQuoted? (c :: reversed) rest
    else doubleQuoted? ('\\' :: reversed) (c :: rest)
  | c :: rest => doubleQuoted? (c :: reversed) rest

/-- An operator takes at least one character. -/
theorem length_operator? {inWord : Bool} {cs : List Char} {t : Token} {rest : List Char}
    (found : operator? inWord cs = some (t, rest)) : rest.length < cs.length := by
  obtain ⟨⟨text, kind⟩, member, found⟩ := List.exists_of_findSome?_eq_some found
  simp only at found
  split at found
  · rename_i fits
    cases found
    simp only [Bool.and_eq_true, List.isPrefixOf_iff_prefix] at fits
    have whole := fits.2.length_le
    have longer : 0 < text.toList.length := by
      revert member
      simp only [operators, List.mem_cons, Prod.mk.injEq, List.not_mem_nil, or_false]
      rintro (h | h | h | h | h | h | h | h | h | h | h | h) <;> rw [h.1] <;> decide
    rw [List.length_drop]
    omega
  · cases found

/-- At least the closing quote is taken. -/
theorem length_singleQuoted? {reversed cs text rest : List Char}
    (closed : singleQuoted? reversed cs = some (text, rest)) : rest.length < cs.length := by
  fun_induction singleQuoted? reversed cs with
  | case1 => cases closed
  | case2 => cases closed; simp
  | case3 _ _ _ _ ih => have := ih closed; simp; omega

theorem length_doubleQuoted? {reversed cs text rest : List Char}
    (closed : doubleQuoted? reversed cs = some (text, rest)) : rest.length < cs.length := by
  fun_induction doubleQuoted? reversed cs with
  | case1 => cases closed
  | case2 => cases closed; simp
  | case3 _ _ _ _ ih => have := ih closed; simp; omega
  | case4 _ _ _ _ ih => have := ih closed; simp at this ⊢; omega
  | case5 _ _ _ _ _ ih => have := ih closed; simp; omega

set_option linter.unusedVariables false in
/-- Reads tokens, with the word that is being read. -/
def scan (word : Option OpenWord) (cs : List Char) : Except Fault (List Token) :=
  match cs with
  | [] => .ok (OpenWord.tokens word)
  | '\'' :: rest =>
    match h : singleQuoted? [] rest with
    | none => .error ⟨.openSingleQuote, rest.length + 1⟩
    | some (text, after) => scan (OpenWord.append word text) after
  | '"' :: rest =>
    match h : doubleQuoted? [] rest with
    | none => .error ⟨.openDoubleQuote, rest.length + 1⟩
    | some (text, after) => scan (OpenWord.append word text) after
  | ['\\'] => .error ⟨.trailingBackslash, 1⟩
  | '\\' :: c :: rest => scan (OpenWord.push word c) rest
  | c :: rest =>
    if Text.isBlank c then (scan none rest).map (OpenWord.tokens word ++ ·)
    else match taken : operator? word.isSome (c :: rest) with
      | some (t, after) => (scan none after).map fun ts => OpenWord.tokens word ++ t :: ts
      | none => scan (OpenWord.push word c) rest
termination_by cs.length
decreasing_by
  all_goals simp only [List.length_cons]
  · have := length_singleQuoted? h
    omega
  · have := length_doubleQuoted? h
    omega
  · omega
  · omega
  · have := length_operator? taken
    simp only [List.length_cons] at this
    omega
  · omega

end Lexer

def tokenize (line : String) : Except Failure (List Token) :=
  match Lexer.scan none line.toList with
  | .ok tokens => .ok tokens
  | .error fault => .error (.lexical fault.cause.message (line.toList.length - fault.left + 1))

end StoreShell
