import StoreShell.Proofs.Lists
import StoreShell.Proofs.OpenQuotes

/-! # Lines that are joined by a blank

Nothing that the scanner remembers of a line outlasts a blank in plain text: the blank ends the word
before it, and no operator reaches across. So if a line can be cut into tokens, what a blank and another
line behind it add is what the other line is cut into, or what is wrong with it
(`tokenize_append_blank`).
-/

namespace StoreShell

namespace Lexer

variable {word : Option OpenWord} {w : Char} {cs rest text reversed more symbol : List Char}
  {tokens : List Token}

/-! ### What ends before the blank -/

/-- Single quotes that are closed are not affected by what follows. -/
theorem singleQuoted?_append_of_closed (closed : singleQuoted? reversed cs = some (text, rest)) :
    singleQuoted? reversed (cs ++ more) = some (text, rest ++ more) := by
  fun_induction singleQuoted? reversed cs with
  | case1 => cases closed
  | case2 =>
    cases closed
    rfl
  | case3 reversed c later other ih =>
    rw [List.cons_append, singleQuoted?, ih closed]
    exact other

/-- Nor are double quotes. A backslash is not the last character before they are closed. -/
theorem doubleQuoted?_append_of_closed (closed : doubleQuoted? reversed cs = some (text, rest)) :
    doubleQuoted? reversed (cs ++ more) = some (text, rest ++ more) := by
  fun_induction doubleQuoted? reversed cs with
  | case1 => cases closed
  | case2 =>
    cases closed
    rfl
  | case3 reversed c later escapes ih =>
    rw [List.cons_append, List.cons_append, doubleQuoted?, if_pos escapes, ih closed]
  | case4 reversed c later kept ih =>
    rw [List.cons_append, List.cons_append, doubleQuoted?, if_neg kept]
    exact ih closed
  | case5 reversed c later other alone ih =>
    have inside : later ≠ [] := by
      rintro rfl
      cases closed
    obtain ⟨d, later, rfl⟩ := List.exists_cons_of_ne_nil inside
    rw [List.cons_append, doubleQuoted?, ih closed]
    · exact other
    · exact fun _ _ backslash _ => alone d later backslash rfl

/-- There are no blanks in operators. -/
theorem notMem_of_mem_operators (blank : Text.isBlank w) : ∀ o ∈ operators, w ∉ o.1.toList := by
  have visible : operators.all fun o => !o.1.toList.any Text.isBlank := by decide
  intro o listed inside
  have apart := List.all_eq_true.mp visible o listed
  rw [Bool.not_eq_true', List.any_eq_false] at apart
  exact apart w inside blank

/-- Whether an operator stands at the front is settled before a character that it does not have. -/
theorem isPrefixOf_append_cons (other : w ∉ symbol) :
    symbol.isPrefixOf (cs ++ w :: more) = symbol.isPrefixOf cs := by
  induction symbol generalizing cs with
  | nil => rfl
  | cons c symbol ih =>
    obtain ⟨first, later⟩ := not_or.mp (mt List.mem_cons.mpr other)
    cases cs with
    | nil => simp [List.isPrefixOf, Ne.symm first]
    | cons d cs => simp [List.isPrefixOf, ih later]

/-- No operator reaches across a blank. -/
theorem operator?_append_blank (blank : Text.isBlank w) (inWord : Bool) :
    operator? inWord (cs ++ w :: more) =
      (operator? inWord cs).map fun (t, rest) => (t, rest ++ w :: more) := by
  have others := notMem_of_mem_operators blank
  rw [operator?, operator?]
  generalize operators = list at others
  induction list with
  | nil => rfl
  | cons o list ih =>
    obtain ⟨first, later⟩ := List.forall_mem_cons.mp others
    obtain ⟨symbol, kind⟩ := o
    dsimp only at first
    rw [List.findSome?_cons, List.findSome?_cons, ih later]
    dsimp only
    rw [isPrefixOf_append_cons first]
    by_cases here : fits inWord symbol.toList && symbol.toList.isPrefixOf cs
    · have within := (List.isPrefixOf_iff_prefix.mp (Bool.and_eq_true_iff.mp here).2).length_le
      rw [if_pos here, if_pos here, List.drop_append_of_le_length within]
      rfl
    · rw [if_neg here, if_neg here]

/-! ### Scanning across -/

/-- What is in front of a blank in plain text is scanned as if nothing followed. -/
theorem scan_append_blank (blank : Text.isBlank w) (read : scan word cs = .ok tokens) :
    scan word (cs ++ w :: more) = (scan none more).map (tokens ++ ·) := by
  fun_induction scan word cs generalizing tokens with
  | case1 word =>
    cases read
    exact scan_blank blank
  | case2 | case4 | case6 => cases read
  | case3 word rest text later closed ih =>
    rw [List.cons_append, scan_single (singleQuoted?_append_of_closed closed), ih read]
  | case5 word rest text later closed ih =>
    rw [List.cons_append, scan_double (doubleQuoted?_append_of_closed closed), ih read]
  | case7 word c rest ih =>
    rw [List.cons_append, List.cons_append, scan_backslash, ih read]
  | case8 word c rest noSingle noDouble notLast noEscape isBlank ih =>
    obtain ⟨later, done, rfl⟩ := exists_of_map_eq_ok read
    rw [List.cons_append, scan_blank isBlank, ih done]
    cases scan none more <;> simp [Except.map]
  | case9 word c rest noSingle noDouble notLast noEscape visible t behind taken ih =>
    obtain ⟨later, done, rfl⟩ := exists_of_map_eq_ok read
    have plain := plain_of_alone noSingle noDouble notLast noEscape
    have found : operator? word.isSome (c :: (rest ++ w :: more)) = some (t, behind ++ w :: more) := by
      rw [← List.cons_append, operator?_append_blank blank, taken]
      rfl
    rw [List.cons_append, scan_taken plain (Bool.eq_false_iff.mpr visible) found, ih done]
    cases scan none more <;> simp [Except.map]
  | case10 word c rest noSingle noDouble notLast noEscape visible noOperator ih =>
    have plain := plain_of_alone noSingle noDouble notLast noEscape
    have missing : operator? word.isSome (c :: (rest ++ w :: more)) = none := by
      rw [← List.cons_append, operator?_append_blank blank, noOperator]
      rfl
    rw [List.cons_append, scan_char plain (Bool.eq_false_iff.mpr visible) missing, ih read]

/-- A fault has its place in what was scanned. -/
theorem left_le_of_scan {fault : Fault} (failed : scan word cs = .error fault) :
    fault.left ≤ cs.length := by
  have agrees := agrees_scan word cs 0
  rw [failed] at agrees
  obtain ⟨place, -, left, -⟩ := agrees
  omega

end Lexer

theorem scan_of_tokenize {line : String} {tokens : List Token} (read : tokenize line = .ok tokens) :
    Lexer.scan none line.toList = .ok tokens := by
  rw [tokenize] at read
  split at read
  · next done =>
    cases read
    exact done
  · cases read

/-- A line that can be cut into tokens puts its tokens in front of what a blank and another line behind
it are cut into. What is wrong with the other line is wrong with the whole, and as far behind as the
first line and the blank are long. -/
theorem tokenize_append_blank (a b : String) (w : Char) (blank : Text.isBlank w)
    (tokens : List Token) (read : tokenize a = .ok tokens) :
    (∀ all, tokenize (a ++ String.singleton w ++ b) = .ok all ↔
        ∃ more, tokenize b = .ok more ∧ all = tokens ++ more) ∧
      ∀ failure, tokenize b = .error failure → ∃ message column,
        failure = .lexical message column ∧ tokenize (a ++ String.singleton w ++ b) =
          .error (.lexical message (column + (a.toList.length + 1))) := by
  have whole : (a ++ String.singleton w ++ b).toList = a.toList ++ w :: b.toList := by simp
  have joined : Lexer.scan none (a.toList ++ w :: b.toList) =
      (Lexer.scan none b.toList).map (tokens ++ ·) :=
    Lexer.scan_append_blank blank (scan_of_tokenize read)
  simp only [tokenize, whole, joined]
  cases behind : Lexer.scan none b.toList with
  | ok more => simp [Except.map, eq_comm]
  | error fault =>
    have within := Lexer.left_le_of_scan behind
    have shifted : (a.toList ++ w :: b.toList).length - fault.left + 1 =
        b.toList.length - fault.left + 1 + (a.toList.length + 1) := by
      rw [List.length_append, List.length_cons]
      omega
    refine ⟨fun all => iff_of_false (by rintro ⟨⟩) (by rintro ⟨more, ⟨⟩, -⟩), ?_⟩
    rintro _ ⟨⟩
    exact ⟨_, _, rfl, by rw [← shifted]; rfl⟩

private def openFront : List Token :=
  [.word "é" false, ⟨.redirectErrToOut, "2>&1", false⟩, .word "2" true, ⟨.redirectOut, ">", false⟩]

/-- A no-break space keeps `>` and `>` apart, and the place of an open quote moves along. -/
theorem tokenize_append_blank_apart : Text.isBlank '\u00a0' ∧
    tokenize "é 2>&1 '2'>" = .ok openFront ∧
    tokenize ("é 2>&1 '2'>" ++ String.singleton '\u00a0' ++ ">f") =
      .ok (openFront ++ [⟨.redirectOut, ">", false⟩, .word "f" false]) ∧
    tokenize "> \"\\" = .error (.lexical "unterminated double quote" 3) ∧
    tokenize ("é 2>&1 '2'>" ++ String.singleton '\u00a0' ++ "> \"\\") =
      .error (.lexical "unterminated double quote" 15) := by
  have blank : Text.isBlank '\u00a0' := by decide
  have read : tokenize "é 2>&1 '2'>" = .ok openFront := by decide +kernel
  have more : tokenize ">f" = .ok [⟨.redirectOut, ">", false⟩, .word "f" false] := by decide +kernel
  have failed : tokenize "> \"\\" = .error (.lexical "unterminated double quote" 3) := by decide +kernel
  refine ⟨blank, read, ?_, failed, ?_⟩
  · exact ((tokenize_append_blank _ ">f" _ blank _ read).1 _).mpr ⟨_, more, rfl⟩
  · obtain ⟨message, column, same, moved⟩ :=
      (tokenize_append_blank _ "> \"\\" _ blank _ read).2 _ failed
    cases same
    rw [moved]
    rfl

end StoreShell
