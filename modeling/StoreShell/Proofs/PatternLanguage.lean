import Mathlib.Data.List.Basic
import StoreShell.Glob.Pattern

/-! # The language of a pattern

A pattern without alternatives is a row of tokens, read from left to right, and a name belongs to it
if it can be cut into texts for which these tokens stand (`Belongs`). `matchChars` takes the least
text for each star and lets only the most recent one grow. It misses nothing by that: whatever is
behind an earlier star, up to the next one, was matched as far to the left as possible, so a longer
text for the earlier star leaves less of the name for the rest of the pattern
(`completes_of_belongs_drop`).
-/

namespace StoreShell.Glob

/-- The members of a bracket expression as ranges, up to the bracket that closes it, and what is
behind that. A bracket right at the start closes nothing, and none is the end of a range. -/
inductive Members : (atStart : Bool) → List Char → List (Char × Char) → List Char → Prop where
  | close {after} : Members false (']' :: after) [] after
  | range {atStart : Bool} {a b rest ranges after} : (a = ']' → atStart) → b ≠ ']' →
      Members false rest ranges after →
      Members atStart (a :: '-' :: b :: rest) ((a, b) :: ranges) after
  | single {atStart : Bool} {a rest ranges after} : (a = ']' → atStart) →
      (∀ b more, rest = '-' :: b :: more → b = ']') → Members false rest ranges after →
      Members atStart (a :: rest) ((a, a) :: ranges) after

/-- What a closed bracket expression stands for, from behind its opening bracket on, and what is
behind it. -/
inductive Bracket : List Char → Atom → List Char → Prop where
  | inside {cs ranges after} : cs.head? ≠ some '!' → cs.head? ≠ some '^' →
      Members true cs ranges after → Bracket cs (.set false ranges) after
  | outside {c cs ranges after} : c = '!' ∨ c = '^' → Members true cs ranges after →
      Bracket (c :: cs) (.set true ranges) after

/-- What the first token of a pattern stands for, and what is behind it. -/
inductive Token : List Char → Atom → List Char → Prop where
  | star {rest} : Token ('*' :: rest) .star rest
  | any {rest} : Token ('?' :: rest) .any rest
  | closed {cs atom after} : Bracket cs atom after → Token ('[' :: cs) atom after
  | unclosed {rest} : (∀ atom after, ¬ Bracket rest atom after) →
      Token ('[' :: rest) (.char '[') rest
  | escaped {c rest} : Token ('\\' :: c :: rest) (.char c) rest
  | backslash : Token ['\\'] (.char '\\') []
  | plain {c rest} : c ≠ '*' → c ≠ '?' → c ≠ '[' → c ≠ '\\' → Token (c :: rest) (.char c) rest

/-- The texts for which an atom stands. -/
inductive Atom.Stands : Atom → List Char → Prop where
  | star {text} : Stands .star text
  | any {c} : Stands .any [c]
  | inside {ranges c} : (∃ range ∈ ranges, range.1 ≤ c ∧ c ≤ range.2) →
      Stands (.set false ranges) [c]
  | outside {ranges c} : (¬ ∃ range ∈ ranges, range.1 ≤ c ∧ c ≤ range.2) →
      Stands (.set true ranges) [c]
  | char {c} : Stands (.char c) [c]

/-- The names that belong to a pattern without alternatives. -/
inductive Belongs : List Char → List Char → Prop where
  | nil : Belongs [] []
  | token {pattern atom rest text name} : Token pattern atom rest → atom.Stands text →
      Belongs rest name → Belongs pattern (text ++ name)

variable {atStart : Bool} {pattern name cs rest after text : List Char} {c : Char} {atom : Atom}
  {found ranges : List (Char × Char)}

/-! ### Reading tokens -/

/-- Members of a bracket expression are read as they are written. By induction on the members. -/
theorem Members.ranges? (members : Members atStart cs ranges after) :
    Atom.ranges? atStart found cs = some (found.reverse ++ ranges, after) := by
  induction members generalizing found with
  | close => rw [Atom.ranges?.eq_def, List.append_nil]; rfl
  | range opens differ _ ih =>
    rw [Atom.ranges?.eq_def]
    simpa [differ, ih] using opens
  | @single atStart a rest ranges after opens alone _ ih =>
    have member : (a = ']' && !atStart) = false := by simpa using opens
    have further : Atom.ranges? false ((a, a) :: found) rest =
        some (found.reverse ++ (a, a) :: ranges, after) := by
      rw [ih, List.reverse_cons, List.append_assoc, List.singleton_append]
    rw [Atom.ranges?.eq_def]
    simp only [member, Bool.false_eq_true, if_false]
    split
    · next b more _ => rwa [if_pos (alone b more rfl)]
    · exact further

/-- Conversely, what is read are members, in their order. -/
theorem members_of_ranges? (read : Atom.ranges? atStart found cs = some (ranges, after)) :
    ∃ more, Members atStart cs more after ∧ ranges = found.reverse ++ more := by
  fun_induction Atom.ranges? atStart found cs with
  | case1 => cases read
  | case2 atStart found c rest closes =>
    obtain ⟨rfl, rfl⟩ : c = ']' ∧ atStart = false := by simpa using closes
    cases read
    exact ⟨[], .close, (List.append_nil _).symm⟩
  | case3 atStart found c opens more ih =>
    obtain ⟨ranges, members, rfl⟩ := ih read
    refine ⟨(c, c) :: ranges, .single (by simpa using opens) ?_ members, by simp⟩
    rintro b more' same
    cases same
    rfl
  | case4 atStart found c opens last more differ ih =>
    obtain ⟨ranges, members, rfl⟩ := ih read
    exact ⟨(c, last) :: ranges, .range (by simpa using opens) differ members, by simp⟩
  | case5 atStart found c opens rest alone ih =>
    obtain ⟨ranges, members, rfl⟩ := ih read
    exact ⟨(c, c) :: ranges,
      .single (by simpa using opens) (fun b more same => (alone b more same).elim) members, by simp⟩

/-- Reading the members of a bracket expression is exact. -/
theorem ranges?_eq_some_iff :
    Atom.ranges? true [] cs = some (ranges, after) ↔ Members true cs ranges after := by
  refine ⟨fun read => ?_, Members.ranges?⟩
  obtain ⟨more, members, rfl⟩ := members_of_ranges? read
  exact members

theorem set?_of_negated (negated : c = '!' ∨ c = '^') : Atom.set? (c :: cs) =
    (Atom.ranges? true [] cs).map fun (ranges, after) => (.set true ranges, after) := by
  rcases negated with rfl | rfl <;> rfl

theorem set?_of_plain (mark : cs.head? ≠ some '!') (caret : cs.head? ≠ some '^') : Atom.set? cs =
    (Atom.ranges? true [] cs).map fun (ranges, after) => (.set false ranges, after) := by
  have plain : (cs.head? == some '!' || cs.head? == some '^') = false := by simp [mark, caret]
  simp only [Atom.set?, plain, Bool.false_eq_true, if_false]

/-- Reading a bracket expression is exact. -/
theorem set?_eq_some_iff : Atom.set? cs = some (atom, after) ↔ Bracket cs atom after := by
  constructor
  · intro read
    by_cases negated : ∃ c rest, cs = c :: rest ∧ (c = '!' ∨ c = '^')
    · obtain ⟨c, rest, rfl, negated⟩ := negated
      rw [set?_of_negated negated] at read
      obtain ⟨_, members, same⟩ := Option.map_eq_some_iff.mp read
      cases same
      exact .outside negated (ranges?_eq_some_iff.mp members)
    · have mark : cs.head? ≠ some '!' := fun is =>
        negated ⟨_, _, List.eq_cons_of_mem_head? is, Or.inl rfl⟩
      have caret : cs.head? ≠ some '^' := fun is =>
        negated ⟨_, _, List.eq_cons_of_mem_head? is, Or.inr rfl⟩
      rw [set?_of_plain mark caret] at read
      obtain ⟨_, members, same⟩ := Option.map_eq_some_iff.mp read
      cases same
      exact .inside mark caret (ranges?_eq_some_iff.mp members)
  · rintro (⟨mark, caret, members⟩ | ⟨negated, members⟩)
    · rw [set?_of_plain mark caret, ranges?_eq_some_iff.mpr members]
      rfl
    · rw [set?_of_negated negated, ranges?_eq_some_iff.mpr members]
      rfl

/-- Reading an atom is reading a token of the pattern language. -/
theorem first?_eq_some_iff : Atom.first? pattern = some (atom, rest) ↔ Token pattern atom rest := by
  constructor
  · intro read
    fun_cases Atom.first? pattern with
    | case1 => cases read
    | case2 =>
      cases read
      exact .star
    | case3 =>
      cases read
      exact .any
    | case4 cs =>
      cases closed : Atom.set? cs with
      | none =>
        rw [Atom.first?, closed] at read
        cases read
        refine .unclosed fun atom after bracket => ?_
        rw [set?_eq_some_iff.mpr bracket] at closed
        cases closed
      | some found =>
        rw [Atom.first?, closed] at read
        cases read
        exact .closed (set?_eq_some_iff.mp closed)
    | case5 =>
      cases read
      exact .escaped
    | case6 c behind star any bracket escape =>
      have itself : Atom.first? (c :: behind) = some (.char c, behind) := by
        simp_all [Atom.first?]
      rw [itself] at read
      cases read
      by_cases backslash : c = '\\'
      · subst backslash
        cases rest with
        | nil => exact .backslash
        | cons d rest => exact (escape d rest rfl rfl).elim
      · exact .plain star any bracket backslash
  · intro token
    cases token with
    | closed bracket =>
      rw [Atom.first?, set?_eq_some_iff.mpr bracket]
      rfl
    | unclosed never =>
      cases closed : Atom.set? rest with
      | none =>
        rw [Atom.first?, closed]
        rfl
      | some found => exact absurd (set?_eq_some_iff.mp closed) (never _ _)
    | plain star any bracket backslash => simp_all [Atom.first?]
    | _ => rfl

/-! ### Belonging, token by token -/

theorem Token.of_star (token : Token pattern .star rest) : pattern = '*' :: rest := by
  cases token with
  | star => rfl
  | closed bracket => cases bracket

/-- Where a star stands, the rest of the pattern takes over from some character on. -/
theorem belongs_iff_of_star (read : Atom.first? pattern = some (.star, rest)) :
    Belongs pattern name ↔ ∃ k, Belongs rest (name.drop k) := by
  constructor
  · rintro (_ | @⟨_, _, _, text, name, token, -, belongs⟩)
    · cases read
    · cases read.symm.trans (first?_eq_some_iff.mpr token)
      exact ⟨text.length, by rwa [List.drop_left]⟩
  · rintro ⟨k, belongs⟩
    have cut : Belongs pattern (name.take k ++ name.drop k) :=
      .token (first?_eq_some_iff.mp read) .star belongs
    rwa [List.take_append_drop] at cut

/-- Every atom but the star stands for single characters. -/
theorem Atom.stands_iff (single : atom ≠ .star) :
    atom.Stands text ↔ ∃ c, text = [c] ∧ atom.accepts c := by
  constructor
  · intro stands
    cases stands with
    | star => exact absurd rfl single
    | any => exact ⟨_, rfl, rfl⟩
    | inside within => exact ⟨_, rfl, by simpa [Atom.accepts] using within⟩
    | outside without => exact ⟨_, rfl, by simpa [Atom.accepts] using without⟩
    | char => exact ⟨_, rfl, decide_eq_true rfl⟩
  · rintro ⟨c, rfl, accepted⟩
    cases atom with
    | star => exact absurd rfl single
    | any => exact .any
    | set negated ranges =>
      cases negated with
      | false => exact .inside (by simpa [Atom.accepts] using accepted)
      | true => exact .outside (by simpa [Atom.accepts] using accepted)
    | char d =>
      obtain rfl : d = c := of_decide_eq_true accepted
      exact .char

/-- Any other atom takes one character. -/
theorem belongs_iff_of_ne_star (read : Atom.first? pattern = some (atom, rest))
    (single : atom ≠ .star) :
    Belongs pattern name ↔ ∃ c more, name = c :: more ∧ atom.accepts c ∧ Belongs rest more := by
  constructor
  · rintro (_ | @⟨_, _, _, text, name, token, stands, belongs⟩)
    · cases read
    · cases read.symm.trans (first?_eq_some_iff.mpr token)
      obtain ⟨c, rfl, accepted⟩ := (Atom.stands_iff single).mp stands
      exact ⟨c, name, rfl, accepted, belongs⟩
  · rintro ⟨c, more, rfl, accepted, belongs⟩
    exact .token (first?_eq_some_iff.mp read) ((Atom.stands_iff single).mpr ⟨c, rfl, accepted⟩)
      belongs

/-- Only stars can be left over at the end of a name. -/
theorem belongs_nil_iff : Belongs pattern [] ↔ pattern.all (· = '*') := by
  constructor
  · intro belongs
    generalize none : [] = name at belongs
    induction belongs with
    | nil => rfl
    | @token pattern atom rest text name token stands _ ih =>
      obtain ⟨rfl, rfl⟩ := List.append_eq_nil_iff.mp none.symm
      have star : atom = .star := by
        by_contra single
        obtain ⟨c, impossible, -⟩ := (Atom.stands_iff single).mp stands
        cases impossible
      subst star
      rw [token.of_star, List.all_cons, ih rfl]
      rfl
  · intro stars
    induction pattern with
    | nil => exact .nil
    | cons c rest ih =>
      obtain ⟨rfl, stars⟩ : c = '*' ∧ rest.all (· = '*') := by simpa using stars
      have nothing : Atom.Stands .star [] := .star
      exact .token .star nothing (ih stars)

/-! ### One star at a time -/

/-- Whether matching a pattern can be completed from where it stopped. -/
def Stop.Completes : Stop → Prop
  | .ended left => left.all (· = '*')
  | .star behind name => ∃ k, Belongs behind (name.drop k)
  | .stuck => False

/-- A name belongs to a pattern if and only if matching can be completed from its first stop. -/
theorem belongs_iff_completes : Belongs pattern name ↔ (advance pattern name).Completes := by
  fun_induction advance pattern name with
  | case1 => exact belongs_nil_iff
  | case2 pattern c name none =>
    refine iff_of_false (fun belongs => ?_) id
    generalize whole : c :: name = all at belongs
    cases belongs with
    | nil => cases whole
    | token token => cases none.symm.trans (first?_eq_some_iff.mpr token)
  | case3 pattern c name behind read => exact belongs_iff_of_star read
  | case4 pattern c name atom rest single read accepted ih =>
    rw [belongs_iff_of_ne_star read single, ← ih]
    refine ⟨?_, fun belongs => ⟨c, name, rfl, accepted, belongs⟩⟩
    rintro ⟨d, more, same, -, belongs⟩
    cases same
    exact belongs
  | case5 pattern c name atom rest single read refused =>
    refine iff_of_false (fun belongs => ?_) id
    obtain ⟨d, more, same, accepted, -⟩ := (belongs_iff_of_ne_star read single).mp belongs
    cases same
    exact refused accepted

/-- If a pattern matches a later part of a name and does not get stuck in the whole of it, then
matching can be completed from where it stopped. -/
theorem completes_of_belongs_drop (goes : advance pattern name ≠ .stuck) {k : Nat}
    (belongs : Belongs pattern (name.drop k)) : (advance pattern name).Completes := by
  fun_induction advance pattern name generalizing k with
  | case1 =>
    rw [List.drop_nil] at belongs
    exact belongs_nil_iff.mp belongs
  | case2 => exact absurd rfl goes
  | case3 pattern c name behind read =>
    obtain ⟨j, belongs⟩ := (belongs_iff_of_star read).mp belongs
    exact ⟨k + j, by rwa [List.drop_drop] at belongs⟩
  | case4 pattern c name atom rest single read accepted ih =>
    obtain ⟨d, more, cut, -, belongs⟩ := (belongs_iff_of_ne_star read single).mp belongs
    have later := congrArg List.tail cut
    rw [List.tail_drop, List.tail_cons] at later
    subst later
    exact ih goes belongs
  | case5 => exact absurd rfl goes

/-- It is enough to try the leftmost way up to the next star: later ones leave less of the name. -/
theorem exists_belongs_drop_iff (goes : advance pattern name ≠ .stuck) :
    (∃ k, Belongs pattern (name.drop k)) ↔ (advance pattern name).Completes :=
  ⟨fun ⟨_, belongs⟩ => completes_of_belongs_drop goes belongs,
    fun completes => ⟨0, belongs_iff_completes.mpr completes⟩⟩

/-- The search behind a star tries every rest of the name. -/
theorem search_iff (behind name : List Char) :
    search behind name ↔ ∃ k, Belongs behind (name.drop k) := by
  fun_induction search behind name with
  | case1 behind name left stop =>
    have goes : advance behind name ≠ .stuck := by rw [stop]; nofun
    rw [exists_belongs_drop_iff goes, stop]
    rfl
  | case2 behind name further left stop ih =>
    have goes : advance behind name ≠ .stuck := by rw [stop]; nofun
    rw [exists_belongs_drop_iff goes, stop]
    exact ih
  | case3 behind stop =>
    refine iff_of_false Bool.false_ne_true ?_
    rintro ⟨k, belongs⟩
    rw [List.drop_nil, belongs_iff_completes, stop] at belongs
    exact belongs
  | case4 behind c name stop ih =>
    rw [ih]
    refine ⟨fun ⟨k, belongs⟩ => ⟨k + 1, belongs⟩, ?_⟩
    rintro ⟨_ | k, belongs⟩
    · rw [List.drop_zero, belongs_iff_completes, stop] at belongs
      exact belongs.elim
    · exact ⟨k, belongs⟩

/-- Matching decides the language of a pattern. -/
theorem matchChars_iff_belongs (pattern name : List Char) :
    matchChars pattern name = true ↔ Belongs pattern name := by
  rw [belongs_iff_completes, matchChars]
  cases advance pattern name with
  | ended left => rfl
  | star behind left => exact search_iff behind left
  | stuck => exact iff_of_false Bool.false_ne_true id

end StoreShell.Glob
