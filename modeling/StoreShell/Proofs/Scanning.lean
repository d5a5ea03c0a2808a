import StoreShell.Token.Lexer

/-! # What the scanner reads

A token can be written so that it is read back whatever its text: a quoted word between single
quotes, another word with a backslash before each of its characters, an operator as it is. Each
lemma says what the scanner does with such a piece and leaves open what stands behind it;
`Lexer.tokenize_of_reads` puts the pieces of a line together.
-/

namespace StoreShell

namespace Lexer

variable {word : Option OpenWord} {c : Char} {text before rest reversed : List Char}

/-! ### Single characters -/

theorem scan_nil : scan word [] = .ok (OpenWord.tokens word) := by
  rw [scan]

/-- A backslash takes the next character with it. -/
theorem scan_backslash : scan word ('\\' :: c :: rest) = scan (OpenWord.push word c) rest := by
  rw [scan]

/-- A blank has nothing to do with quotes. -/
theorem plain_of_isBlank (blank : Text.isBlank c) : c ∉ ['\'', '"', '\\'] := by
  intro listed
  simp only [List.mem_cons, List.not_mem_nil, or_false] at listed
  rcases listed with rfl | rfl | rfl <;> revert blank <;> decide

/-- A blank ends the word before it. -/
theorem scan_blank (blank : Text.isBlank c) : scan word (c :: rest) =
    (scan none rest).map (OpenWord.tokens word ++ ·) := by
  have plain := plain_of_isBlank blank
  simp only [List.mem_cons, List.not_mem_nil, or_false, not_or] at plain
  rw [scan]
  · exact if_pos blank
  all_goals simp [plain]

theorem scan_space : scan word (' ' :: rest) =
    (scan none rest).map (OpenWord.tokens word ++ ·) :=
  scan_blank (by decide)

/-- So does an operator that stands where it can. -/
theorem scan_taken {t : Token} {later : List Char} (plain : c ∉ ['\'', '"', '\\'])
    (visible : Text.isBlank c = false)
    (taken : operator? word.isSome (c :: rest) = some (t, later)) :
    scan word (c :: rest) = (scan none later).map fun ts => OpenWord.tokens word ++ t :: ts := by
  simp only [List.mem_cons, List.not_mem_nil, or_false, not_or] at plain
  rw [scan, if_neg (by rw [visible]; decide)]
  · split
    · next found =>
      rw [taken] at found
      cases found
      rfl
    · next missing =>
      rw [taken] at missing
      cases missing
  all_goals simp [plain]

/-- Any other character is part of a word. -/
theorem scan_char (plain : c ∉ ['\'', '"', '\\']) (visible : Text.isBlank c = false)
    (missing : operator? word.isSome (c :: rest) = none) :
    scan word (c :: rest) = scan (OpenWord.push word c) rest := by
  simp only [List.mem_cons, List.not_mem_nil, or_false, not_or] at plain
  rw [scan, if_neg (by rw [visible]; decide)]
  · split
    · next found =>
      rw [missing] at found
      cases found
    · rfl
  all_goals simp [plain]

/-- Quoted characters are part of a word too. -/
theorem scan_single {later : List Char} (closed : singleQuoted? [] rest = some (text, later)) :
    scan word ('\'' :: rest) = scan (OpenWord.append word text) later := by
  rw [scan]
  split
  · next unclosed => rw [closed] at unclosed; cases unclosed
  · next found =>
    rw [closed] at found
    cases found
    rfl

theorem scan_double {later : List Char} (closed : doubleQuoted? [] rest = some (text, later)) :
    scan word ('"' :: rest) = scan (OpenWord.append word text) later := by
  rw [scan]
  split
  · next unclosed => rw [closed] at unclosed; cases unclosed
  · next found =>
    rw [closed] at found
    cases found
    rfl

/-- Whether a piece can end before these characters: at a blank or at the end of the line. -/
def Ends (rest : List Char) : Prop := ∀ c ∈ rest.head?, c = ' '

theorem ends_nil : Ends [] := by simp [Ends]

theorem ends_space : Ends (' ' :: rest) := by simp [Ends]

/-- A word ends where a piece can end, and reading begins anew there. -/
theorem scan_of_ends (ends : Ends rest) :
    scan word rest = (scan none rest).map (OpenWord.tokens word ++ ·) := by
  cases rest with
  | nil => simp [scan_nil, OpenWord.tokens, Except.map]
  | cons c rest =>
    obtain rfl := ends c rfl
    rw [scan_space, scan_space]
    cases scan none rest <;> rfl

/-! ### Words -/

/-- Reading up to a single quote takes what stands before it. -/
theorem singleQuoted?_append (plain : '\'' ∉ text) :
    singleQuoted? reversed (text ++ '\'' :: rest) = some (text.reverse ++ reversed, rest) := by
  induction text generalizing reversed with
  | nil => rfl
  | cons c text ih =>
    obtain ⟨first, later⟩ := not_or.mp (mt List.mem_cons.mpr plain)
    rw [List.cons_append, singleQuoted?, ih later]
    · simp
    · exact fun quote => first quote.symm

/-- What stands between two single quotes is quoted. -/
theorem scan_quote (plain : '\'' ∉ text) : scan word ('\'' :: (text ++ '\'' :: rest)) =
    scan (OpenWord.append word text.reverse) rest := by
  have closed : singleQuoted? [] (text ++ '\'' :: rest) = some (text.reverse ++ [], rest) :=
    singleQuoted?_append plain
  rw [scan_single closed, List.append_nil]

/-- A character between single quotes. A single quote is written by closing them, escaping it and
opening them again. -/
def quotedChar (c : Char) : List Char := if c = '\'' then ['\'', '\\', '\'', '\''] else [c]

def singleQuoted (text : List Char) : List Char := '\'' :: (text.flatMap quotedChar ++ ['\''])

/-- A text with a backslash before each character. -/
def escaped (text : List Char) : List Char := text.flatMap fun c => ['\\', c]

private theorem scan_singleQuoted_from (plain : '\'' ∉ before) :
    scan word ('\'' :: (before ++ (text.flatMap quotedChar ++ '\'' :: rest))) =
      scan (OpenWord.append word (text.reverse ++ before.reverse)) rest := by
  induction text generalizing word before with
  | nil => exact scan_quote plain
  | cons c text ih =>
    rw [List.flatMap_cons, quotedChar]
    split
    · next quote =>
      subst quote
      have closed : '\'' :: (before ++ (['\'', '\\', '\'', '\''] ++ text.flatMap quotedChar ++
          '\'' :: rest)) = '\'' :: (before ++ '\'' :: '\\' :: '\'' :: '\'' ::
            ([] ++ (text.flatMap quotedChar ++ '\'' :: rest))) := by simp
      rw [closed, scan_quote plain, scan_backslash, ih List.not_mem_nil]
      simp [OpenWord.append, OpenWord.push]
    · next other =>
      have moved : '\'' ∉ before ++ [c] := by simp [plain, Ne.symm other]
      have shifted : before ++ ([c] ++ text.flatMap quotedChar ++ '\'' :: rest) =
          before ++ [c] ++ (text.flatMap quotedChar ++ '\'' :: rest) := by simp
      rw [shifted, ih moved]
      simp

/-- Between single quotes every character stands for itself. -/
theorem scan_singleQuoted : scan word (singleQuoted text ++ rest) =
    scan (OpenWord.append word text.reverse) rest := by
  have whole : scan word ('\'' :: ([] ++ (text.flatMap quotedChar ++ '\'' :: rest))) =
      scan (OpenWord.append word (text.reverse ++ [].reverse)) rest :=
    scan_singleQuoted_from List.not_mem_nil
  simpa [singleQuoted] using whole

/-- Characters with a backslash each are part of the word that is being read. -/
theorem scan_escaped {w : OpenWord} : scan (some w) (escaped text ++ rest) =
    scan (some { w with reversed := text.reverse ++ w.reversed }) rest := by
  induction text generalizing w with
  | nil => rfl
  | cons c text ih =>
    rw [escaped, List.flatMap_cons, List.append_assoc, List.cons_append, List.singleton_append,
      scan_backslash]
    rw [escaped] at ih
    rw [OpenWord.push, ih]
    simp

/-- They begin a word if there is none. -/
theorem scan_escaped_of_ne_nil (filled : text ≠ []) : scan none (escaped text ++ rest) =
    scan (some ⟨text.reverse, false⟩) rest := by
  obtain ⟨c, text, rfl⟩ := List.exists_cons_of_ne_nil filled
  have step : escaped (c :: text) ++ rest = '\\' :: c :: (escaped text ++ rest) := by simp [escaped]
  rw [step, scan_backslash, OpenWord.push, scan_escaped]
  simp

/-! ### Operators -/

variable {symbol : String} {kind : TokenKind}

/-- No operator begins with a quote, a backslash or a blank. -/
theorem exists_cons_of_mem_operators (listed : (symbol, kind) ∈ operators) :
    ∃ c text, symbol.toList = c :: text ∧ c ∉ ['\'', '"', '\\'] ∧ Text.isBlank c = false := by
  simp only [operators, List.mem_cons, Prod.mk.injEq, List.not_mem_nil, or_false] at listed
  rcases listed with h | h | h | h | h | h | h | h | h | h | h | h <;>
    (rw [h.1]; exact ⟨_, _, rfl, by decide, by decide⟩)

/-- An operator is read as such where it ends, although longer ones begin alike. -/
theorem operator?_append (listed : (symbol, kind) ∈ operators) (ends : Ends rest) :
    operator? false (symbol.toList ++ rest) = some (⟨kind, symbol, false⟩, rest) := by
  simp only [operators, List.mem_cons, Prod.mk.injEq, List.not_mem_nil, or_false] at listed
  rcases rest with _ | ⟨c, rest⟩
  · rcases listed with h | h | h | h | h | h | h | h | h | h | h | h <;>
      (obtain ⟨rfl, rfl⟩ := h; rfl)
  · obtain rfl := ends c rfl
    rcases listed with h | h | h | h | h | h | h | h | h | h | h | h <;>
      (obtain ⟨rfl, rfl⟩ := h; rfl)

/-- An operator behind which a piece can end is read as one token. -/
theorem scan_operator (listed : (symbol, kind) ∈ operators) (ends : Ends rest) :
    scan none (symbol.toList ++ rest) = (scan none rest).map (⟨kind, symbol, false⟩ :: ·) := by
  have found := operator?_append listed ends
  obtain ⟨c, text, spelled, plain, visible⟩ := exists_cons_of_mem_operators listed
  rw [spelled, List.cons_append] at found ⊢
  exact scan_taken plain visible found

/-! ### Lines -/

/-- Whether a piece of a line is read as one token, where it ends. -/
def Reads (piece : List Char) (t : Token) : Prop :=
  ∀ {rest : List Char}, Ends rest → scan none (piece ++ rest) = (scan none rest).map (t :: ·)

/-- A line of pieces with single spaces between them is read piece by piece. -/
theorem tokenize_of_reads {α : Type} (text : α → String) (token : α → Token) {pieces : List α}
    (reads : ∀ a ∈ pieces, Reads (text a).toList (token a)) :
    tokenize (" ".intercalate (pieces.map text)) = .ok (pieces.map token) := by
  have scanned : scan none (" ".intercalate (pieces.map text)).toList =
      .ok (pieces.map token) := by
    induction pieces with
    | nil => exact scan_nil
    | cons a rest ih =>
      obtain ⟨first, later⟩ := List.forall_mem_cons.mp reads
      cases rest with
      | nil =>
        rw [List.map_singleton, String.intercalate_singleton, ← List.append_nil (text a).toList,
          first ends_nil, scan_nil]
        rfl
      | cons b more =>
        have spaced : (" ".intercalate ((a :: b :: more).map text)).toList =
            (text a).toList ++ ' ' :: (" ".intercalate ((b :: more).map text)).toList := by
          simp [String.intercalate_cons_cons]
        rw [spaced, first ends_space, scan_space, ih later]
        rfl
  rw [tokenize, scanned]

end Lexer

namespace Token

def written (t : Token) : String :=
  match t.kind, t.quoted with
  | .word, true => .ofList (Lexer.singleQuoted t.text.toList)
  | .word, false => .ofList (Lexer.escaped t.text.toList)
  | _, _ => t.text

/-- There is a way to write the operators, and the words that are quoted or not empty. -/
inductive Writable : Token → Prop
  | word {text : String} {quoted : Bool} (visible : quoted ∨ text ≠ "") :
    Writable (.word text quoted)
  | operator {symbol : String} {kind : TokenKind} (listed : (symbol, kind) ∈ Lexer.operators) :
    Writable ⟨kind, symbol, false⟩

theorem written_operator {symbol : String} {kind : TokenKind}
    (listed : (symbol, kind) ∈ Lexer.operators) : written ⟨kind, symbol, false⟩ = symbol := by
  have noWord : ∀ o ∈ Lexer.operators, o.2 ≠ .word := by decide
  have kept := noWord _ listed
  cases kind <;> first | rfl | exact absurd rfl kept

/-- A token is read as it was written, where it ends. -/
theorem reads_written {t : Token} (writable : t.Writable) : Lexer.Reads t.written.toList t := by
  intro rest ends
  cases writable with
  | @word text quoted visible =>
    cases quoted with
    | true =>
      rw [written, Token.word, String.toList_ofList, Lexer.scan_singleQuoted,
        Lexer.scan_of_ends ends]
      simp [Lexer.OpenWord.append, Lexer.OpenWord.tokens, Token.word]
    | false =>
      have filled : text.toList ≠ [] := by simpa using visible
      rw [written, Token.word, String.toList_ofList, Lexer.scan_escaped_of_ne_nil filled,
        Lexer.scan_of_ends ends]
      simp [Lexer.OpenWord.tokens, Token.word]
  | operator listed => rw [written_operator listed, Lexer.scan_operator listed ends]

end Token

/-- Written tokens are read back from a line where single spaces stand between them. -/
theorem tokenize_written {tokens : List Token} (writable : ∀ t ∈ tokens, t.Writable) :
    tokenize (" ".intercalate (tokens.map Token.written)) = .ok tokens := by
  have reads := Lexer.tokenize_of_reads Token.written id fun t member =>
    Token.reads_written (writable t member)
  rwa [List.map_id] at reads

end StoreShell
