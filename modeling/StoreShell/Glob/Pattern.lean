import StoreShell.Glob.Braces

/-!
# Patterns

Whether a name belongs to a pattern. A pattern is first expanded to patterns without alternatives,
and each of these is read as a row of atoms: `*` stands for any characters, `?` for one, a closed
bracket expression for one of a set, a backslash for the character behind it, and all else for
itself. A name that begins with a dot belongs only to patterns that begin with one.

`matchChars` reads a pattern from left to right and takes a character of the name for each atom up
to the next star, which at first stands for nothing. When the name cannot go on, only the most
recent star takes one character more, and matching starts again behind it: no earlier star is ever
reconsidered.
-/

namespace StoreShell.Glob

/-- What a part of a pattern stands for. -/
inductive Atom where
  /-- Any characters, also none. -/
  | star
  /-- One character. -/
  | any
  /-- One character inside the ranges or, if negated, outside all of them. -/
  | set (negated : Bool) (ranges : List (Char × Char))
  /-- The character itself. -/
  | char (c : Char)
  deriving DecidableEq, Repr

namespace Atom

/-- Whether an atom other than a star stands for a character. -/
def accepts : Atom → Char → Bool
  | .star, _ => false
  | .any, _ => true
  | .set negated ranges, c => ranges.any (fun (first, last) => first ≤ c && c ≤ last) != negated
  | .char d, c => d = c

/-- Reads the members of a bracket expression, last first, up to its closing bracket. A bracket
right at the beginning does not close it. -/
def ranges? (atStart : Bool) (found : List (Char × Char)) (cs : List Char) :
    Option (List (Char × Char) × List Char) :=
  match cs with
  | [] => none
  | c :: rest =>
    if c = ']' && !atStart then some (found.reverse, rest)
    else match rest with
      | '-' :: last :: after =>
        if last = ']' then ranges? false ((c, c) :: found) ('-' :: last :: after)
        else ranges? false ((c, last) :: found) after
      | rest => ranges? false ((c, c) :: found) rest
termination_by cs.length
decreasing_by all_goals simp_all <;> omega

/-- Reads a bracket expression from behind its opening bracket, if it is closed. -/
def set? (cs : List Char) : Option (Atom × List Char) :=
  let negated := cs.head? == some '!' || cs.head? == some '^'
  (ranges? true [] (if negated then cs.tail else cs)).map fun (ranges, after) =>
    (.set negated ranges, after)

/-- At least the closing bracket is taken. -/
theorem length_ranges? {atStart : Bool} {found ranges : List (Char × Char)} {cs after : List Char}
    (closed : ranges? atStart found cs = some (ranges, after)) : after.length < cs.length := by
  fun_induction ranges? atStart found cs with
  | case1 => cases closed
  | case2 => cases closed; simp
  | case3 _ _ _ _ _ ih => have := ih closed; simp at this ⊢; omega
  | case4 _ _ _ _ _ _ _ ih => have := ih closed; simp at this ⊢; omega
  | case5 _ _ _ _ _ _ ih => have := ih closed; simp at this ⊢; omega

theorem length_set? {cs after : List Char} {atom : Atom} (closed : set? cs = some (atom, after)) :
    after.length ≤ cs.length := by
  obtain ⟨⟨ranges, rest⟩, read, same⟩ := Option.map_eq_some_iff.mp closed
  cases same
  have := length_ranges? read
  split at this <;> simp at this ⊢ <;> omega

/-- The first atom of a pattern and what is behind it. -/
def first? : List Char → Option (Atom × List Char)
  | [] => none
  | '*' :: rest => some (.star, rest)
  | '?' :: rest => some (.any, rest)
  | '[' :: rest => some ((set? rest).getD (.char '[', rest))
  | '\\' :: c :: rest => some (.char c, rest)
  | c :: rest => some (.char c, rest)

/-- Reading an atom takes at least one character. -/
theorem length_first? {pattern rest : List Char} {atom : Atom}
    (read : first? pattern = some (atom, rest)) : rest.length < pattern.length := by
  fun_cases first? pattern with
  | case1 => cases read
  | case2 | case3 =>
    cases read
    exact Nat.lt_succ_self _
  | case4 behind =>
    cases closed : set? behind with
    | none =>
      rw [first?, closed] at read
      cases read
      exact Nat.lt_succ_self _
    | some found =>
      rw [first?, closed] at read
      cases read
      exact Nat.lt_succ_of_le (length_set? closed)
  | case5 =>
    cases read
    exact Nat.lt_succ_of_lt (Nat.lt_succ_self _)
  | case6 c behind =>
    have plain : first? (c :: behind) = some (.char c, behind) := by simp_all [first?]
    rw [plain] at read
    cases read
    exact Nat.lt_succ_self _

end Atom

/-- Where matching a pattern with a name atom by atom comes to an end. -/
inductive Stop where
  /-- At the end of the name, with this much left of the pattern. -/
  | ended (pattern : List Char)
  /-- At a star, with this behind it and this much left of the name. -/
  | star (behind name : List Char)
  /-- At a character of the name that the pattern does not allow there. -/
  | stuck
  deriving DecidableEq, Repr

/-- Takes a character of a name for each atom of a pattern, up to the next star. -/
def advance (pattern : List Char) : (name : List Char) → Stop
  | [] => .ended pattern
  | c :: name =>
    match Atom.first? pattern with
    | none => .stuck
    | some (.star, behind) => .star behind (c :: name)
    | some (atom, rest) => if atom.accepts c then advance rest name else .stuck

/-- A star that stops the matching is taken from the pattern, and no character is given back to the
name. -/
theorem length_advance {pattern name behind left : List Char}
    (stop : advance pattern name = .star behind left) :
    behind.length < pattern.length ∧ left.length ≤ name.length := by
  fun_induction advance pattern name with
  | case1 => cases stop
  | case2 => cases stop
  | case3 pattern c name behind read =>
    cases stop
    exact ⟨Atom.length_first? read, Nat.le_refl _⟩
  | case4 pattern c name atom rest _ read _ ih =>
    have shorter := Atom.length_first? read
    obtain ⟨pattern, name⟩ := ih stop
    exact ⟨Nat.lt_trans pattern shorter, Nat.le_succ_of_le name⟩
  | case5 => cases stop

set_option linter.unusedVariables false in
/-- Whether what is behind the most recent star matches a name from some character on. -/
def search (behind name : List Char) : Bool :=
  match h : advance behind name with
  | .ended left => left.all (· = '*')
  | .star behind name => search behind name
  | .stuck =>
    match name with
    | [] => false
    | _ :: name => search behind name
termination_by behind.length + name.length
decreasing_by
  · have := length_advance h
    omega
  · simp

/-- Whether a pattern without alternatives matches a name. -/
def matchChars (pattern name : List Char) : Bool :=
  match advance pattern name with
  | .ended left => left.all (· = '*')
  | .star behind name => search behind name
  | .stuck => false

/-- A pattern for one component of a path, expanded to patterns without alternatives. -/
structure Pattern where
  alternatives : List (List Char)

namespace Pattern

def ofText (text : String) : Pattern :=
  ⟨Braces.expand text.toList⟩

/-- Whether a name belongs to a pattern. -/
def accepts (p : Pattern) (name : String) : Bool :=
  let cs := name.toList
  p.alternatives.any fun one =>
    !(cs.head? == some '.' && one.head? != some '.') && matchChars one cs

end Pattern

/-- Whether a text has a character that makes it a pattern. -/
def isPattern (text : String) : Bool :=
  text.toList.any fun c => c = '*' || c = '?' || c = '[' || c = '{'

/-- Whether a text has one of the extended forms, which are never expanded. -/
def isExtended (text : String) : Bool :=
  let cs := text.toList
  (cs.zip cs.tail).any fun (a, b) => b = '(' && (a = '!' || a = '+' || a = '@')

end StoreShell.Glob
