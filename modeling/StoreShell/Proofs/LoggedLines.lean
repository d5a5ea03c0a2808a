import StoreShell.LogLine

/-! # What the log shows of lines

A line whose content is not shown leaves its size in the log and nothing else. Content is made safe
first: line breaks and tabs are replaced one kind after the other, and the other control characters
are left out, which `sanitize` does in one pass (`toList_sanitize`). Then it is cut where a
character ends, as late as the limit allows (`takeBytes`), and the note behind it counts what is
missing.
-/

namespace StoreShell.LogLine

variable {text front : List Char} {room : Nat}

/-! ### Bytes -/

theorem byteCount_append (front behind : List Char) :
    byteCount (front ++ behind) = byteCount front + byteCount behind := by
  induction front with
  | nil => rw [byteCount, List.nil_append, Nat.zero_add]
  | cons c rest ih => rw [List.cons_append, byteCount, byteCount, ih, Nat.add_assoc]

/-- Bytes are counted as the text is stored. -/
theorem byteCount_toList (text : String) : byteCount text.toList = text.utf8ByteSize := by
  have counted : ∀ cs, byteCount cs = (String.ofList cs).utf8ByteSize := by
    intro cs
    induction cs with
    | nil => rfl
    | cons c rest ih =>
      rw [byteCount, ih, ← List.singleton_append, String.ofList_append, String.utf8ByteSize_append,
        ← String.singleton_eq_ofList, String.utf8ByteSize_singleton]
  rw [counted, String.ofList_toList]

/-- A beginning of a text has no more bytes than the text. -/
theorem byteCount_le_of_prefix (first : front <+: text) : byteCount front ≤ byteCount text := by
  obtain ⟨behind, rfl⟩ := first
  rw [byteCount_append]
  exact Nat.le_add_right ..

/-! ### Cutting -/

/-- What is taken is a beginning of the text. -/
theorem takeBytes_prefix (room : Nat) (text : List Char) : takeBytes room text <+: text := by
  induction text generalizing room with
  | nil => exact List.prefix_rfl
  | cons c rest ih =>
    rw [takeBytes]
    split
    · exact List.cons_prefix_cons.mpr ⟨rfl, ih _⟩
    · exact List.nil_prefix

/-- What is taken fits into the room there is. -/
theorem byteCount_takeBytes_le (room : Nat) (text : List Char) :
    byteCount (takeBytes room text) ≤ room := by
  induction text generalizing room with
  | nil => exact Nat.zero_le room
  | cons c rest ih =>
    rw [takeBytes]
    split
    · next fits =>
      have behind := ih (room - c.utf8Size)
      rw [byteCount]
      omega
    · exact Nat.zero_le room

/-- Every beginning of a text that there is room for is a beginning of what is taken. -/
theorem prefix_takeBytes (first : front <+: text) (fits : byteCount front ≤ room) :
    front <+: takeBytes room text := by
  induction text generalizing front room with
  | nil => exact first
  | cons c rest ih =>
    cases front with
    | nil => exact List.nil_prefix
    | cons d more =>
      obtain ⟨rfl, later⟩ := List.cons_prefix_cons.mp first
      rw [byteCount] at fits
      rw [takeBytes, if_pos (by omega)]
      exact List.cons_prefix_cons.mpr ⟨rfl, ih later (by omega)⟩

/-- Whether a text is the longest beginning of another one with at most so many bytes, where a
character ends. -/
structure Fills (room : Nat) (shown text : String) : Prop where
  begins : ∃ left, text = shown ++ left
  fits : shown.utf8ByteSize ≤ room
  longest : ∀ other left, text = other ++ left → other.utf8ByteSize ≤ room →
    other.utf8ByteSize ≤ shown.utf8ByteSize

/-- What is taken fills the room as far as whole characters can. -/
theorem fills_takeBytes (room : Nat) (text : String) :
    Fills room (String.ofList (takeBytes room text.toList)) text where
  begins := by
    obtain ⟨left, whole⟩ := takeBytes_prefix room text.toList
    refine ⟨String.ofList left, ?_⟩
    rw [← String.ofList_append, whole, String.ofList_toList]
  fits := by
    rw [← byteCount_toList, String.toList_ofList]
    exact byteCount_takeBytes_le room text.toList
  longest other left whole fits := by
    rw [← byteCount_toList] at fits
    rw [← byteCount_toList, ← byteCount_toList, String.toList_ofList]
    refine byteCount_le_of_prefix (prefix_takeBytes ⟨left.toList, ?_⟩ fits)
    rw [whole, String.toList_append]

/-- A text is shown as it is, or as much of it as there is room for with a note of the rest. -/
theorem truncate_cases (room : Nat) (text : String) :
    (text.utf8ByteSize ≤ room ∧ truncate room text = text) ∨
      ∃ shown left, room < text.utf8ByteSize ∧ text = shown ++ left ∧ Fills room shown text ∧
        truncate room text = shown ++ s!"...[truncated {left.utf8ByteSize} bytes]" := by
  rw [truncate]
  dsimp only
  rw [byteCount_toList]
  split
  · next fits => exact Or.inl ⟨fits, rfl⟩
  · next long =>
    have fills := fills_takeBytes room text
    obtain ⟨left, whole⟩ := fills.begins
    refine Or.inr ⟨_, left, Nat.lt_of_not_le long, whole, fills, ?_⟩
    have missing :
        text.utf8ByteSize - byteCount (takeBytes room text.toList) = left.utf8ByteSize := by
      have sizes := congrArg String.utf8ByteSize whole
      rw [String.utf8ByteSize_append, ← byteCount_toList (String.ofList _),
        String.toList_ofList] at sizes
      omega
    rw [missing]

/-! ### Making safe -/

def replaced (c : Char) (escape text : List Char) : List Char :=
  text.flatMap fun d => if d = c then escape else [d]

/-- A text with line breaks and tabs shown by their escapes, one kind after the other. -/
def escaped (text : List Char) : List Char :=
  replaced '\t' ['\\', 't'] (replaced '\r' ['\\', 'r'] (replaced '\n' ['\\', 'n'] text))

/-- Escaping goes character by character. -/
theorem escaped_append (front behind : List Char) :
    escaped (front ++ behind) = escaped front ++ escaped behind := by
  simp only [escaped, replaced, List.flatMap_append]

private theorem filter_escaped_singleton (c : Char) :
    (escaped [c]).filter (!Text.isControl ·) = safeChar c := by
  have replaced_singleton : ∀ d escape, replaced d escape [c] = if c = d then escape else [c] :=
    fun _ _ => List.append_nil _
  by_cases newline : c = '\n'
  · subst newline
    decide
  by_cases back : c = '\r'
  · subst back
    decide
  by_cases tab : c = '\t'
  · subst tab
    decide
  have kept : escaped [c] = [c] := by
    simp only [escaped, replaced_singleton, if_neg newline, if_neg back, if_neg tab]
  rw [kept, safeChar, if_neg newline, if_neg back, if_neg tab, List.filter_cons, List.filter_nil]
  cases Text.isControl c <;> rfl

/-- Escaping first and leaving control characters out afterwards comes to the same as doing both
character by character. -/
theorem toList_sanitize (line : String) :
    (sanitize line).toList = (escaped line.toList).filter (!Text.isControl ·) := by
  rw [sanitize, String.toList_ofList]
  induction line.toList with
  | nil => rfl
  | cons c rest ih =>
    rw [List.flatMap_cons, ih, ← filter_escaped_singleton, ← List.filter_append, ← escaped_append]
    rfl

theorem isControl_of_isDigit {c : Char} (digit : c.isDigit) : Text.isControl c = false := by
  have bounds : 48 ≤ c.toNat ∧ c.toNat ≤ 57 := by
    simpa [Char.isDigit, UInt32.le_iff_toNat_le] using digit
  simp only [Text.isControl, Text.inRanges, Text.controlRanges, List.any_cons, List.any_nil,
    Bool.or_false, Bool.or_eq_false_iff, Bool.and_eq_false_iff, decide_eq_false_iff_not]
  omega

/-- A number is written without control characters. -/
theorem isControl_of_mem_toString {n : Nat} {c : Char} (member : c ∈ (toString n).toList) :
    Text.isControl c = false := by
  refine isControl_of_isDigit ?_
  rw [Nat.toString_eq_repr, Nat.repr, String.toList_ofList] at member
  exact Nat.isDigit_of_mem_toDigits (by decide) (by decide) member

/-! ### Lines -/

/-- Nothing that a truncated text is made of brings a control character into it. -/
theorem isControl_of_mem_truncate {room : Nat} {text : String}
    (safe : ∀ c ∈ text.toList, Text.isControl c = false) :
    ∀ c ∈ (truncate room text).toList, Text.isControl c = false := by
  obtain ⟨-, same⟩ | ⟨shown, left, -, rfl, -, same⟩ := truncate_cases room text
  · rwa [same]
  · intro c member
    have plain : ∀ note : String, note.toList.all (!Text.isControl ·) → c ∈ note.toList →
        Text.isControl c = false := by
      intro note clear member
      simpa using List.all_eq_true.mp clear c member
    rw [same] at member
    simp only [String.toList_append, List.mem_append] at member
    rcases member with member | (member | member) | member
    · exact safe c (by rw [String.toList_append]; exact List.mem_append_left _ member)
    · exact plain "...[truncated " (by decide) member
    · exact isControl_of_mem_toString member
    · exact plain " bytes]" (by decide) member

/-- Where content is not shown, the log tells the number of bytes of a line and of its tokens. Where
it is shown, the line without control characters is shown if it has few enough bytes, and else its
longest beginning that has, where a character ends, with the number of bytes that are left. Neither
brings a control character into the log. -/
theorem describe_bounded (policy : LogPolicy) (tokens : Nat) :
    (policy.showsContent = false → ∀ line other, line.utf8ByteSize = other.utf8ByteSize →
      describe policy line tokens = describe policy other tokens) ∧
    (policy.showsContent → ∀ line,
      (∀ c ∈ (describe policy line tokens).toList, Text.isControl c = false) ∧
      ∃ safe, safe.toList = (escaped line.toList).filter (!Text.isControl ·) ∧
        (safe.utf8ByteSize ≤ policy.maxBytes → describe policy line tokens = safe) ∧
        (policy.maxBytes < safe.utf8ByteSize → ∃ shown left, safe = shown ++ left ∧
          Fills policy.maxBytes shown safe ∧ describe policy line tokens =
            shown ++ s!"...[truncated {left.utf8ByteSize} bytes]")) := by
  constructor
  · intro hidden line other same
    have described : ∀ line, describe policy line tokens =
        s!"[line: {line.utf8ByteSize} bytes, {tokens} tokens]" := by
      intro line
      rw [describe, if_neg (Bool.eq_false_iff.mp hidden), byteCount_toList]
    rw [described, described, same]
  · intro shows line
    have described : describe policy line tokens = truncate policy.maxBytes (sanitize line) := by
      rw [describe, if_pos shows]
    rw [described]
    refine ⟨isControl_of_mem_truncate fun c member => ?_, sanitize line, toList_sanitize line, ?_,
      ?_⟩
    · rw [toList_sanitize, List.mem_filter] at member
      simpa using member.2
    · intro fits
      obtain ⟨-, same⟩ | ⟨-, -, long, -⟩ := truncate_cases policy.maxBytes (sanitize line)
      · exact same
      · exact absurd fits (Nat.not_le_of_lt long)
    · intro long
      obtain ⟨fits, -⟩ | ⟨shown, left, -, whole, fills, same⟩ :=
        truncate_cases policy.maxBytes (sanitize line)
      · exact absurd fits (Nat.not_le_of_lt long)
      · exact ⟨shown, left, whole, fills, same⟩

/-- With a line break, a bell, a letter of two bytes and a tab in it, a line has ten bytes of safe
content, and is cut in front of that letter if there is room for six. -/
theorem describe_bounded_cut :
    describe ⟨false, 6⟩ "aéd" 2 = describe ⟨false, 6⟩ "rm d" 2 ∧
    describe ⟨true, 10⟩ "ab\n\x07cé\td" 2 = "ab\\ncé\\td" ∧
    ∃ shown left, "ab\\ncé\\td" = shown ++ left ∧ Fills 6 shown "ab\\ncé\\td" ∧
      describe ⟨true, 6⟩ "ab\n\x07cé\td" 2 =
        shown ++ s!"...[truncated {left.utf8ByteSize} bytes]" := by
  have made : ∀ safe : String,
      safe.toList = (escaped "ab\n\x07cé\td".toList).filter (!Text.isControl ·) →
        safe = "ab\\ncé\\td" :=
    fun safe same => String.toList_injective (same.trans (by decide))
  refine ⟨(describe_bounded ⟨false, 6⟩ 2).1 rfl _ _ (by decide), ?_, ?_⟩
  · obtain ⟨-, safe, same, whole, -⟩ := (describe_bounded ⟨true, 10⟩ 2).2 rfl "ab\n\x07cé\td"
    obtain rfl := made safe same
    exact whole (by decide)
  · obtain ⟨-, safe, same, -, cut⟩ := (describe_bounded ⟨true, 6⟩ 2).2 rfl "ab\n\x07cé\td"
    obtain rfl := made safe same
    exact cut (by decide)

example : describe ⟨true, 6⟩ "ab\n\x07cé\td" 2 = "ab\\nc...[truncated 5 bytes]" := by decide +kernel

end StoreShell.LogLine
