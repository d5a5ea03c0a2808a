import StoreShell.Proofs.Scanning

/-! # Lines that break off

A reader who looks for nothing but quotes and backslashes can tell whether a line breaks off inside
a quote or behind a backslash, and where that began. Words, operators and blanks are of no account for
it, so `Standing` knows nothing of them. `tokenize_eq_error_iff` says that the lines that break off are
those that cannot be cut into tokens, and that they are reported as this reader would.
-/

namespace StoreShell

namespace Lexer

/-! ### A reader of quotes -/

/-- Where a reader stands who looks for nothing but quotes and backslashes. What has been opened is
remembered with its column, which counts characters from 1. -/
inductive Standing where
  | plain
  /-- Behind a plain backslash, which takes the next character with it. -/
  | escaping (column : Nat)
  | single (column : Nat)
  | double (column : Nat)
  /-- Behind a backslash between double quotes, which may take the next character with it. -/
  | doubleEscaping (column : Nat)
  deriving DecidableEq, Repr

namespace Standing

/-- Reads a character between double quotes that no backslash takes with it. -/
def inDouble (opened : Nat) (c : Char) : Standing :=
  if c = '"' then .plain else if c = '\\' then .doubleEscaping opened else .double opened

/-- Reads the character at a column. -/
def next (s : Standing) (column : Nat) (c : Char) : Standing :=
  match s with
  | .plain =>
    if c = '\'' then .single column
    else if c = '"' then .double column
    else if c = '\\' then .escaping column
    else .plain
  | .escaping _ => .plain
  | .single opened => if c = '\'' then .plain else .single opened
  | .double opened => inDouble opened c
  | .doubleEscaping opened =>
    if c ∈ ['"', '\\', '$', '`'] then .double opened else inDouble opened c

/-- Reads characters, the first of which is at a column. -/
def after (s : Standing) (column : Nat) : List Char → Standing
  | [] => s
  | c :: rest => (s.next column c).after (column + 1) rest

/-- What is wrong with a line that ends here. -/
def failure? : Standing → Option Failure
  | .plain => none
  | .escaping column => some (.lexical "trailing backslash" column)
  | .single column => some (.lexical "unterminated single quote" column)
  | .double column | .doubleEscaping column => some (.lexical "unterminated double quote" column)

variable {s : Standing} {column opened : Nat} {cs before rest reversed text : List Char}

/-- Reading may be interrupted anywhere if the column is kept. -/
theorem after_append : s.after column (before ++ rest) =
    (s.after column before).after (column + before.length) rest := by
  induction before generalizing s column with
  | nil => rfl
  | cons c before ih =>
    rw [List.cons_append, after, after, ih, List.length_cons, Nat.add_assoc, Nat.add_comm 1]

/-- What has nothing to do with quotes is passed over. -/
theorem after_plain (plain : ∀ c ∈ cs, c ∉ ['\'', '"', '\\']) :
    Standing.plain.after column cs = .plain := by
  induction cs generalizing column with
  | nil => rfl
  | cons c rest ih =>
    obtain ⟨first, later⟩ := List.forall_mem_cons.mp plain
    simp only [List.mem_cons, List.not_mem_nil, or_false, not_or] at first
    rw [after, next, if_neg first.1, if_neg first.2.1, if_neg first.2.2]
    exact ih later

/-! ### Quoted text -/

/-- Single quotes that are not closed stay open. -/
theorem after_of_singleQuoted?_eq_none (unclosed : singleQuoted? reversed cs = none) :
    (single opened).after column cs = .single opened := by
  fun_induction singleQuoted? reversed cs generalizing column with
  | case1 => rfl
  | case2 => cases unclosed
  | case3 reversed c rest other ih =>
    rw [after, next, if_neg other]
    exact ih unclosed

/-- Single quotes that are closed are left there. -/
theorem exists_after_of_singleQuoted? (opened : Nat) (closed : singleQuoted? reversed cs = some (text, rest)) :
    ∃ before, cs = before ++ rest ∧
      ∀ column, (single opened).after column before = .plain := by
  fun_induction singleQuoted? reversed cs with
  | case1 => cases closed
  | case2 =>
    cases closed
    exact ⟨['\''], rfl, fun _ => rfl⟩
  | case3 reversed c later other ih =>
    obtain ⟨before, rfl, left⟩ := ih closed
    refine ⟨c :: before, rfl, fun column => ?_⟩
    rw [after, next, if_neg other]
    exact left _

/-- Between double quotes a backslash takes some characters with it. -/
theorem after_double_escape {c : Char} (escapes : c ∈ escapable) :
    (double opened).after column ('\\' :: c :: rest) = (double opened).after (column + 2) rest := by
  have taken : (doubleEscaping opened).next (column + 1) c = .double opened := if_pos escapes
  rw [after, after, next, inDouble, if_neg (by decide), if_pos rfl, taken]

/-- A backslash that takes nothing with it stands for itself. -/
theorem after_double_backslash {c : Char} (kept : c ∉ escapable) :
    (double opened).after column ('\\' :: c :: rest) =
      (double opened).after (column + 1) (c :: rest) := by
  have read : (doubleEscaping opened).next (column + 1) c = inDouble opened c := if_neg kept
  rw [after, after, next, inDouble, if_neg (by decide), if_pos rfl, read]
  rfl

theorem after_double_other {c : Char} (other : c ≠ '"') (plain : c ≠ '\\') :
    (double opened).after column (c :: rest) = (double opened).after (column + 1) rest := by
  rw [after, next, inDouble, if_neg other, if_neg plain]

/-- Double quotes that are not closed stay open. -/
theorem failure?_after_of_doubleQuoted?_eq_none (unclosed : doubleQuoted? reversed cs = none) :
    ((double opened).after column cs).failure? =
      some (.lexical "unterminated double quote" opened) := by
  fun_induction doubleQuoted? reversed cs generalizing column with
  | case1 => rfl
  | case2 => cases unclosed
  | case3 reversed c rest escapes ih => rw [after_double_escape escapes, ih unclosed]
  | case4 reversed c rest kept ih => rw [after_double_backslash kept, ih unclosed]
  | case5 reversed c rest other alone ih =>
    by_cases backslash : c = '\\'
    · subst backslash
      cases rest with
      | nil => rfl
      | cons d rest => exact absurd rfl (alone d rest rfl)
    · rw [after_double_other other backslash, ih unclosed]

/-- Double quotes that are closed are left there. -/
theorem exists_after_of_doubleQuoted? (opened : Nat) (closed : doubleQuoted? reversed cs = some (text, rest)) :
    ∃ before, cs = before ++ rest ∧
      ∀ column, (double opened).after column before = .plain := by
  fun_induction doubleQuoted? reversed cs with
  | case1 => cases closed
  | case2 =>
    cases closed
    exact ⟨['"'], rfl, fun _ => rfl⟩
  | case3 reversed c later escapes ih =>
    obtain ⟨before, rfl, left⟩ := ih closed
    exact ⟨'\\' :: c :: before, rfl, fun column => by rw [after_double_escape escapes, left]⟩
  | case4 reversed c later kept ih =>
    obtain ⟨before, whole, left⟩ := ih closed
    cases before with
    | nil => cases left 0
    | cons d before =>
      obtain ⟨rfl, rfl⟩ := List.cons.inj whole
      exact ⟨'\\' :: c :: before, rfl, fun column => by rw [after_double_backslash kept, left]⟩
  | case5 reversed c later other alone ih =>
    obtain ⟨before, rfl, left⟩ := ih closed
    by_cases backslash : c = '\\'
    · subst backslash
      cases before with
      | nil => cases left 0
      | cons d before => exact absurd rfl (alone d (before ++ rest) rfl)
    · exact ⟨c :: before, rfl, fun column => by rw [after_double_other other backslash, left]⟩

end Standing

/-! ### The scanner and the reader -/

/-- Whether what the scanner makes of characters agrees with where the reader stands behind them, if
the first of them is at a column. -/
def Agrees (column : Nat) (cs : List Char) : Except Fault (List Token) → Prop
  | .ok _ => Standing.plain.after column cs = .plain
  | .error fault => ∃ place, column ≤ place ∧ place + fault.left = column + cs.length ∧
      (Standing.plain.after column cs).failure? = some (.lexical fault.cause.message place)

variable {column : Nat} {cs rest : List Char} {result : Except Fault (List Token)}

/-- What is done with the tokens does not matter to where reading stops. -/
theorem Agrees.map (agrees : Agrees column cs result) (f : List Token → List Token) :
    Agrees column cs (result.map f) := by
  cases result <;> exact agrees

/-- The scanner may go on where the reader stands in plain text. -/
theorem Agrees.of_rest (before : List Char) (passed : Standing.plain.after column before = .plain)
    (agrees : Agrees (column + before.length) rest result) : Agrees column (before ++ rest) result := by
  cases result with
  | ok tokens =>
    rw [Agrees, Standing.after_append, passed]
    exact agrees
  | error fault =>
    obtain ⟨place, behind, left, failure⟩ := agrees
    refine ⟨place, by omega, by rw [List.length_append]; omega, ?_⟩
    rw [Standing.after_append, passed, failure]

/-- An operator that was found is what the characters begin with. -/
theorem exists_of_operator? {inWord : Bool} {t : Token} (found : operator? inWord cs = some (t, rest)) :
    ∃ symbol kind, (symbol, kind) ∈ operators ∧ cs = symbol.toList ++ rest := by
  obtain ⟨⟨symbol, kind⟩, listed, found⟩ := List.exists_of_findSome?_eq_some found
  dsimp only at found
  split at found
  · next here =>
    obtain ⟨behind, rfl⟩ := List.isPrefixOf_iff_prefix.mp (Bool.and_eq_true_iff.mp here).2
    rw [List.drop_left] at found
    cases found
    exact ⟨symbol, kind, listed, rfl⟩
  · cases found

/-- No operator has anything to do with quotes. -/
theorem plain_of_mem_operators : ∀ o ∈ operators, ∀ c ∈ o.1.toList, c ∉ ['\'', '"', '\\'] := by
  have plain : operators.all fun o => o.1.toList.all fun c => decide (c ∉ ['\'', '"', '\\']) := by
    decide
  intro o listed c inside
  simpa using List.all_eq_true.mp (List.all_eq_true.mp plain o listed) c inside

/-- A character that the scanner takes by itself has nothing to do with quotes. -/
theorem plain_of_alone {c : Char} (noSingle : c = '\'' → False) (noDouble : c = '"' → False)
    (notLast : c = '\\' → rest = [] → False)
    (noEscape : ∀ d more, c = '\\' → rest = d :: more → False) : c ∉ ['\'', '"', '\\'] := by
  simp only [List.mem_cons, List.not_mem_nil, or_false, not_or]
  refine ⟨noSingle, noDouble, fun backslash => ?_⟩
  cases rest with
  | nil => exact notLast backslash rfl
  | cons d more => exact noEscape d more backslash rfl

/-- The scanner fails where the reader says so, whatever word is being read. -/
theorem agrees_scan (word : Option OpenWord) (cs : List Char) (column : Nat) :
    Agrees column cs (scan word cs) := by
  fun_induction scan word cs generalizing column with
  | case1 word => exact rfl
  | case2 word rest unclosed =>
    refine ⟨column, Nat.le_refl _, rfl, ?_⟩
    have opens : Standing.plain.next column '\'' = .single column := rfl
    rw [Standing.after, opens, Standing.after_of_singleQuoted?_eq_none unclosed]
    rfl
  | case3 word rest text later closed ih =>
    obtain ⟨before, rfl, left⟩ := Standing.exists_after_of_singleQuoted? column closed
    exact (ih _).of_rest ('\'' :: before) (left (column + 1))
  | case4 word rest unclosed =>
    refine ⟨column, Nat.le_refl _, rfl, ?_⟩
    have opens : Standing.plain.next column '"' = .double column := rfl
    rw [Standing.after, opens, Standing.failure?_after_of_doubleQuoted?_eq_none unclosed]
    rfl
  | case5 word rest text later closed ih =>
    obtain ⟨before, rfl, left⟩ := Standing.exists_after_of_doubleQuoted? column closed
    exact (ih _).of_rest ('"' :: before) (left (column + 1))
  | case6 word => exact ⟨column, Nat.le_refl _, rfl, rfl⟩
  | case7 word c rest ih => exact (ih _).of_rest ['\\', c] rfl
  | case8 word c rest noSingle noDouble notLast noEscape blank ih =>
    have alone := plain_of_alone noSingle noDouble notLast noEscape
    exact ((ih _).of_rest [c] (Standing.after_plain (List.forall_mem_singleton.mpr alone))).map _
  | case9 word c rest _ _ _ _ visible t later taken ih =>
    obtain ⟨symbol, kind, listed, whole⟩ := exists_of_operator? taken
    rw [whole]
    exact ((ih _).of_rest _ (Standing.after_plain (plain_of_mem_operators _ listed))).map _
  | case10 word c rest noSingle noDouble notLast noEscape visible noOperator ih =>
    have alone := plain_of_alone noSingle noDouble notLast noEscape
    exact (ih _).of_rest [c] (Standing.after_plain (List.forall_mem_singleton.mpr alone))

end Lexer

/-- Exactly the lines that break off inside a quote or behind a backslash cannot be cut into tokens.
The failure names what is open and the column where it was opened. -/
theorem tokenize_eq_error_iff (line : String) (failure : Failure) :
    tokenize line = .error failure ↔
      (Lexer.Standing.plain.after 1 line.toList).failure? = some failure := by
  have agrees := Lexer.agrees_scan none line.toList 1
  rw [tokenize]
  cases scanned : Lexer.scan none line.toList with
  | ok tokens =>
    have passed : Lexer.Standing.plain.after 1 line.toList = .plain := by rwa [scanned] at agrees
    rw [passed]
    exact iff_of_false (by rintro ⟨⟩) (by rintro ⟨⟩)
  | error fault =>
    rw [scanned] at agrees
    obtain ⟨place, first, left, told⟩ := agrees
    have column : line.toList.length - fault.left + 1 = place := by omega
    dsimp only
    rw [told, column, Except.error.injEq, Option.some.injEq]

/-- A letter of two bytes is one column, and the last backslash takes nothing with it. -/
example : (Lexer.Standing.plain.after 1 "é'|' \"\\\"a\\".toList).failure? =
    some (.lexical "unterminated double quote" 6) := by
  decide

end StoreShell
