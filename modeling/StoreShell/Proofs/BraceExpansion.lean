import Mathlib.Data.List.Basic
import StoreShell.Glob.Braces

/-! # What patterns with braces expand to

A group is a balanced text between braces, and the commas outside of the groups inside it divide it
into alternatives. The full expansion of a pattern puts each alternative of its leftmost divided
group in the place of that group and expands what comes out in full (`Expands`). `alternatives?`
reads exactly the texts that are spelled like the rest of a group, so `group?` finds the leftmost
divided one, and `expand` is the full expansion of every pattern for which that is not too long.
-/

namespace StoreShell.Glob.Braces

/-- A text in which each brace has a partner, with commas outside of its groups or without. -/
inductive Balanced : (commas : Bool) → List Char → Prop where
  | nil {commas : Bool} : Balanced commas []
  | char {commas : Bool} {c cs} : c ≠ '{' → c ≠ '}' → (c = ',' → commas) → Balanced commas cs →
      Balanced commas (c :: cs)
  | group {commas : Bool} {inside cs} : Balanced true inside → Balanced commas cs →
      Balanced commas ('{' :: (inside ++ '}' :: cs))

namespace Group

/-- Whether a pattern, cut at one of its divided groups, has these parts. -/
structure Cuts (g : Group) (pattern : List Char) : Prop where
  spelled : pattern = g.before ++ '{' :: ([','].intercalate g.alternatives ++ '}' :: g.after)
  undivided : ∀ one ∈ g.alternatives, Balanced false one
  several : 2 ≤ g.alternatives.length

/-- Whether a pattern, cut at its leftmost divided group, has these parts. -/
structure IsLeftmost (g : Group) (pattern : List Char) : Prop where
  cuts : g.Cuts pattern
  leftmost : ∀ other : Group, other.Cuts pattern → g.before.length ≤ other.before.length

/-- A pattern with one alternative in the place of the group at which it was cut. -/
def fill (g : Group) (one : List Char) : List Char := g.before ++ one ++ g.after

/-- A cut pattern with a text in front of it. -/
def behind (text : List Char) (g : Group) : Group := { g with before := text ++ g.before }

end Group

/-- The full expansion of a pattern: the pattern itself if it has no divided group, and otherwise
the full expansions of what each alternative of the leftmost one leaves, one after the other. -/
inductive Expands : List Char → List (List Char) → Prop where
  | plain {pattern} : (∀ g : Group, ¬ g.Cuts pattern) → Expands pattern [pattern]
  | group {pattern} {g : Group} {found : List Char → List (List Char)} : g.IsLeftmost pattern →
      (∀ one ∈ g.alternatives, Expands (g.fill one) (found one)) →
      Expands pattern (g.alternatives.flatMap found)

variable {commas : Bool} {depth : Nat} {reversed pattern current cs after rest : List Char}
  {done all : List (List Char)} {g h : Group}

/-! ### Reading a group -/

/-- Balanced text followed by balanced text is balanced. -/
theorem Balanced.append {a b : List Char} (left : Balanced commas a) (right : Balanced commas b) :
    Balanced commas (a ++ b) := by
  induction left with
  | nil => exact right
  | char opens closes comma _ ih => exact .char opens closes comma (ih right)
  | group inside _ _ ih =>
    rw [List.cons_append, List.append_assoc, List.cons_append]
    exact .group inside (ih right)

/-- Reading goes over a balanced text, unless it has commas where they divide. -/
theorem alternatives?_append (balanced : Balanced commas cs) (inner : commas → 0 < depth) :
    alternatives? depth current done (cs ++ rest) =
      alternatives? depth (cs.reverse ++ current) done rest := by
  induction balanced generalizing depth current rest with
  | nil => rfl
  | @char commas c cs opens closes comma _ ih =>
    have stays : (c = ',' && depth = 0) = false := by
      simp only [Bool.and_eq_false_imp, decide_eq_true_eq, decide_eq_false_iff_not]
      intro is
      exact Nat.pos_iff_ne_zero.mp (inner (comma is))
    rw [List.cons_append, alternatives?, if_neg opens, if_neg closes, stays,
      if_neg Bool.false_ne_true, ih inner, List.reverse_cons, List.append_assoc,
      List.singleton_append]
  | @group commas inside cs _ _ ihInside ih =>
    have passes : alternatives? (depth + 1) ('{' :: current) done (inside ++ '}' :: (cs ++ rest)) =
        alternatives? depth ('}' :: (inside.reverse ++ '{' :: current)) done (cs ++ rest) := by
      rw [ihInside fun _ => Nat.succ_pos depth, alternatives?, if_neg (by decide), if_pos rfl,
        if_neg (Nat.succ_ne_zero depth), Nat.succ_sub_one]
    rw [List.cons_append, List.append_assoc, List.cons_append, alternatives?, if_pos rfl, passes,
      ih inner]
    simp

/-- What is read of a group from behind its opening brace on, if some groups inside it are still
open: an alternative as far as it goes. -/
def Opened : Nat → List Char → Prop
  | 0, cs => Balanced false cs
  | depth + 1, cs =>
    ∃ before inside, cs = before ++ '{' :: inside ∧ Opened depth before ∧ Balanced true inside

theorem Opened.append {a b : List Char} (opened : Opened depth a)
    (balanced : Balanced (0 < depth) b) : Opened depth (a ++ b) := by
  cases depth with
  | zero => exact Balanced.append opened balanced
  | succ depth =>
    obtain ⟨before, inside, rfl, outer, inner⟩ := opened
    refine ⟨before, inside ++ b, ?_, outer, inner.append balanced⟩
    rw [List.append_assoc, List.cons_append]

/-- A closing brace ends the innermost open group. -/
theorem Opened.close (opened : Opened (depth + 1) cs) : Opened depth (cs ++ ['}']) := by
  obtain ⟨before, inside, rfl, outer, inner⟩ := opened
  rw [List.append_assoc]
  exact outer.append (.group inner .nil)

/-- The alternatives that are read are balanced, and with commas between them they are what was
read. -/
theorem spelled_of_alternatives? (read : alternatives? depth current done cs = some (all, after))
    (opened : Opened depth current.reverse) :
    ∃ one more, all = done.reverse ++ one :: more ∧ (∀ a ∈ one :: more, Balanced false a) ∧
      current.reverse ++ cs = [','].intercalate (one :: more) ++ '}' :: after := by
  fun_induction alternatives? depth current done cs with
  | case1 => cases read
  | case2 depth current done rest ih =>
    have opened' : Opened (depth + 1) ('{' :: current).reverse :=
      ⟨current.reverse, [], List.reverse_cons .., opened, .nil⟩
    obtain ⟨one, more, parts, undivided, spelled⟩ := ih read opened'
    exact ⟨one, more, parts, undivided, by simpa using spelled⟩
  | case3 current done rest =>
    cases read
    exact ⟨current.reverse, [], List.reverse_cons .., List.forall_mem_singleton.mpr opened,
      by rw [List.intercalate_singleton]⟩
  | case4 depth current done rest inner _ ih =>
    obtain ⟨depth, rfl⟩ := Nat.exists_eq_succ_of_ne_zero inner
    have closed : Opened depth ('}' :: current).reverse := by
      rw [List.reverse_cons]
      exact opened.close
    obtain ⟨one, more, parts, undivided, spelled⟩ := ih read closed
    exact ⟨one, more, parts, undivided, by simpa using spelled⟩
  | case5 depth current done c rest _ _ divides ih =>
    obtain ⟨rfl, rfl⟩ : c = ',' ∧ depth = 0 := by simpa using divides
    obtain ⟨one, more, parts, undivided, spelled⟩ := ih read .nil
    refine ⟨current.reverse, one :: more, ?_, List.forall_mem_cons.mpr ⟨opened, undivided⟩, ?_⟩
    · rw [parts, List.reverse_cons, List.append_assoc, List.singleton_append]
    · rw [List.intercalate_cons_cons, List.append_assoc, ← spelled]
      simp
  | case6 depth current done c rest opens closes stays ih =>
    have further : Opened depth (c :: current).reverse := by
      rw [List.reverse_cons]
      refine opened.append (.char opens closes (fun is => ?_) .nil)
      simpa [is, Nat.pos_iff_ne_zero] using stays
    obtain ⟨one, more, parts, undivided, spelled⟩ := ih read further
    exact ⟨one, more, parts, undivided, by simpa using spelled⟩

/-- Conversely, balanced alternatives with commas between them are read as they are. -/
theorem alternatives?_intercalate (filled : all ≠ [])
    (undivided : ∀ one ∈ all, Balanced false one) :
    alternatives? 0 [] done ([','].intercalate all ++ '}' :: after) =
      some (done.reverse ++ all, after) := by
  induction all generalizing done with
  | nil => exact absurd rfl filled
  | cons one more ih =>
    have passes : ∀ rest, alternatives? 0 [] done (one ++ rest) =
        alternatives? 0 (one.reverse ++ []) done rest :=
      fun rest => alternatives?_append (undivided one (List.mem_cons_self ..)) nofun
    cases more with
    | nil =>
      rw [List.intercalate_singleton, passes]
      simp [alternatives?]
    | cons next more =>
      rw [List.intercalate_cons_cons, List.append_assoc, List.append_assoc, passes,
        List.singleton_append, alternatives?, if_neg (by decide), if_neg (by decide),
        if_pos (by decide), ih (List.cons_ne_nil _ _)
          fun other member => undivided other (List.mem_cons_of_mem _ member)]
      simp

/-- Exactly the texts are read that consist of undivided alternatives and a closing brace. -/
theorem alternatives?_eq_some_iff :
    alternatives? 0 [] [] cs = some (all, after) ↔
      cs = [','].intercalate all ++ '}' :: after ∧ (∀ one ∈ all, Balanced false one) ∧
        all ≠ [] := by
  refine ⟨fun read => ?_, fun ⟨spelled, undivided, filled⟩ => ?_⟩
  · obtain ⟨one, more, rfl, undivided, spelled⟩ := spelled_of_alternatives? read .nil
    exact ⟨spelled, undivided, List.cons_ne_nil _ _⟩
  · rw [spelled]
    exact alternatives?_intercalate filled undivided

/-! ### Finding the leftmost divided group -/

/-- A group cuts a pattern at a brace if and only if it is read from behind that brace. -/
theorem Group.cuts_iff : g.Cuts pattern ↔ 2 ≤ g.alternatives.length ∧
    ∃ inside, pattern = g.before ++ '{' :: inside ∧
      alternatives? 0 [] [] inside = some (g.alternatives, g.after) := by
  refine ⟨fun cut => ⟨cut.several, _, cut.spelled, ?_⟩, ?_⟩
  · exact alternatives?_eq_some_iff.mpr
      ⟨rfl, cut.undivided, List.ne_nil_of_length_pos (Nat.zero_lt_of_lt cut.several)⟩
  · rintro ⟨several, inside, rfl, read⟩
    obtain ⟨rfl, undivided, -⟩ := alternatives?_eq_some_iff.mp read
    exact ⟨rfl, undivided, several⟩

theorem Group.Cuts.behind (cut : g.Cuts pattern) (text : List Char) :
    (g.behind text).Cuts (text ++ pattern) :=
  ⟨by rw [cut.spelled, Group.behind, List.append_assoc], cut.undivided, cut.several⟩

/-- Where a pattern is cut says how. -/
theorem Group.Cuts.unique (cut : g.Cuts pattern) (other : h.Cuts pattern)
    (same : g.before.length = h.before.length) : g = h := by
  obtain ⟨-, inside, spelled, read⟩ := Group.cuts_iff.mp cut
  obtain ⟨-, inside', spelled', read'⟩ := Group.cuts_iff.mp other
  obtain ⟨before, rest⟩ := List.append_inj (spelled.symm.trans spelled') same
  cases rest
  have parts := Option.some.inj (read.symm.trans read')
  cases g
  cases h
  cases parts
  cases before
  rfl

/-- No other group is the leftmost one as well. -/
theorem Group.IsLeftmost.unique (first : g.IsLeftmost pattern) (other : h.IsLeftmost pattern) :
    g = h :=
  first.cuts.unique other.cuts
    (Nat.le_antisymm (first.leftmost h other.cuts) (other.leftmost g first.cuts))

/-- If no divided group begins with the first character, the groups are those of the rest. -/
theorem Group.Cuts.of_cons {c : Char} (cut : g.Cuts (c :: rest))
    (further : ¬ (c = '{' ∧ ∃ all after, alternatives? 0 [] [] rest = some (all, after) ∧
      2 ≤ all.length)) : ∃ h : Group, h.Cuts rest ∧ g = h.behind [c] := by
  obtain ⟨several, inside, spelled, read⟩ := Group.cuts_iff.mp cut
  obtain ⟨_ | ⟨d, before⟩, alternatives, after⟩ := g
  · cases spelled
    exact absurd ⟨rfl, _, _, read, several⟩ further
  · cases spelled
    exact ⟨⟨before, alternatives, after⟩, Group.cuts_iff.mpr ⟨several, inside, rfl, read⟩, rfl⟩

/-- The leftmost group is found if there is one. By induction on the characters: a group that does
not begin here begins later. -/
theorem group?_cases (reversed cs : List Char) :
    (group? reversed cs = none ∧ ∀ g : Group, ¬ g.Cuts cs) ∨
      ∃ g : Group, group? reversed cs = some (g.behind reversed.reverse) ∧ g.IsLeftmost cs := by
  induction cs generalizing reversed with
  | nil => exact Or.inl ⟨rfl, fun g cut => absurd cut.spelled.symm (by simp)⟩
  | cons c rest ih =>
    by_cases first : c = '{' ∧ ∃ all after, alternatives? 0 [] [] rest = some (all, after) ∧
      2 ≤ all.length
    · obtain ⟨rfl, all, after, read, several⟩ := first
      refine Or.inr ⟨⟨[], all, after⟩, ?_, Group.cuts_iff.mpr ⟨several, rest, rfl, read⟩,
        fun _ _ => Nat.zero_le _⟩
      simp only [group?, if_true, read, if_pos several, Group.behind, List.append_nil]
    · have skips : group? reversed (c :: rest) = group? (c :: reversed) rest := by
        simp only [group?]
        split
        · next opens =>
          split
          · next all after read =>
            exact if_neg fun several => first ⟨opens, all, after, read, several⟩
          · rfl
        · rfl
      rw [skips]
      rcases ih (c :: reversed) with ⟨none, clean⟩ | ⟨g, found, least⟩
      · refine Or.inl ⟨none, fun g cut => ?_⟩
        obtain ⟨h, cut', -⟩ := cut.of_cons first
        exact clean h cut'
      · refine Or.inr ⟨g.behind [c], ?_, least.cuts.behind [c], fun other cut => ?_⟩
        · rw [found]
          simp [Group.behind]
        · obtain ⟨h, cut', rfl⟩ := cut.of_cons first
          exact Nat.succ_le_succ (least.leftmost h cut')

/-- Nothing is found if and only if no group cuts the pattern. -/
theorem group?_eq_none_iff : group? [] pattern = none ↔ ∀ g : Group, ¬ g.Cuts pattern := by
  rcases group?_cases [] pattern with ⟨none, clean⟩ | ⟨g, found, least⟩
  · exact iff_of_true none clean
  · exact iff_of_false (by rw [found]; nofun) fun clean => clean g least.cuts

/-- What is found is the leftmost group. -/
theorem group?_eq_some_iff : group? [] pattern = some g ↔ g.IsLeftmost pattern := by
  rcases group?_cases [] pattern with ⟨none, clean⟩ | ⟨h, found, least⟩
  · exact iff_of_false (by rw [none]; nofun) fun least => clean g least.cuts
  · rw [found]
    refine ⟨fun same => ?_, fun least' => ?_⟩
    · cases same
      exact least
    · rw [least'.unique least]
      rfl

/-! ### The full expansion -/

/-- Every pattern has a full expansion: a pattern with an alternative in the place of a group is
shorter. -/
theorem exists_expands (pattern : List Char) : ∃ all, Expands pattern all := by
  induction length : pattern.length using Nat.strongRecOn generalizing pattern with
  | _ n ih =>
    subst length
    cases found : group? [] pattern with
    | none => exact ⟨_, .plain (group?_eq_none_iff.mp found)⟩
    | some g =>
      have shorter : ∀ one ∈ g.alternatives, (g.fill one).length < pattern.length := by
        simpa [Group.fill] using length_group? found
      have each : ∀ one, ∃ all, one ∈ g.alternatives → Expands (g.fill one) all := fun one => by
        by_cases member : one ∈ g.alternatives
        · obtain ⟨all, expands⟩ := ih _ (shorter one member) (g.fill one) rfl
          exact ⟨all, fun _ => expands⟩
        · exact ⟨[], fun is => absurd is member⟩
      choose parts expands using each
      exact ⟨_, .group (group?_eq_some_iff.mp found) expands⟩

namespace Expands

/-- A pattern has one expansion at most. By induction on the expansion: the group at which the
pattern is cut is the same one. -/
theorem unique (expands : Expands pattern all) {other : List (List Char)}
    (expands' : Expands pattern other) : other = all := by
  induction expands generalizing other with
  | plain clean =>
    cases expands' with
    | plain => rfl
    | group least => exact absurd least.cuts (clean _)
  | group least _ ih =>
    cases expands' with
    | plain clean => exact absurd least.cuts (clean _)
    | group least' each' =>
      cases least.unique least'
      exact List.flatMap_congr fun one member => ih one member (each' one member)

/-- Nothing in a full expansion can be expanded any further. -/
theorem clean_of_mem (expands : Expands pattern all) {one : List Char} (member : one ∈ all) :
    ∀ g : Group, ¬ g.Cuts one := by
  induction expands with
  | plain clean =>
    rw [List.mem_singleton.mp member]
    exact clean
  | group _ _ ih =>
    obtain ⟨alternative, there, member⟩ := List.mem_flatMap.mp member
    exact ih alternative there member

/-- A pattern stands for one pattern at least. -/
theorem ne_nil (expands : Expands pattern all) : all ≠ [] := by
  induction expands with
  | plain => exact List.cons_ne_nil _ _
  | @group pattern g found least _ ih =>
    obtain ⟨one, member⟩ := List.exists_mem_of_length_pos (Nat.zero_lt_of_lt least.cuts.several)
    intro empty
    exact ih one member (List.flatMap_eq_nil_iff.mp empty one member)

end Expands

/-! ### The expansion up to its limit -/

/-- The alternatives are filled in one after the other, each expanded into what was found before it.
-/
theorem expandInto_of_isLeftmost (least : g.IsLeftmost pattern) (found : List (List Char)) :
    expandInto found pattern =
      g.alternatives.foldlM (fun found one => expandInto found (g.fill one)) found := by
  rw [expandInto]
  split
  · next none => exact absurd least.cuts (group?_eq_none_iff.mp none g)
  · next some =>
    cases (group?_eq_some_iff.mp some).unique least
    rw [List.foldlM_subtype (g := fun found one => expandInto found (g.fill one))
      fun _ _ _ => rfl, List.unattach_attach]

/-- What was found before and the full expansion are found together, unless they are too many. -/
theorem expandInto_of_expands (expands : Expands pattern all) {found : List (List Char)}
    (room : found.length ≤ limit) : expandInto found pattern =
      if found.length + all.length ≤ limit then some (all.reverse ++ found) else none := by
  induction expands generalizing found with
  | plain clean =>
    rw [expandInto]
    split
    · rfl
    · next some => exact absurd (group?_eq_some_iff.mp some).cuts (clean _)
  | @group pattern g parts least _ ih =>
    rw [expandInto_of_isLeftmost least]
    generalize g.alternatives = alternatives at ih
    induction alternatives generalizing found with
    | nil => simp [room]
    | cons one more ihMore =>
      have first := ih one (List.mem_cons_self ..) room
      rw [List.foldlM_cons, first, List.flatMap_cons, List.length_append]
      split
      · next fits =>
        have room' : ((parts one).reverse ++ found).length ≤ limit := by
          simpa [Nat.add_comm] using fits
        have rest := ihMore room' fun other member => ih other (List.mem_cons_of_mem _ member)
        refine rest.trans ?_
        simp [Nat.add_assoc, Nat.add_comm]
      · next full => exact (if_neg fun fits => full (by omega)).symm

/-- A pattern is expanded in full unless that makes too many patterns; then it is left as it is. -/
theorem expand_of_expands (expands : Expands pattern all) :
    expand pattern = if all.length ≤ limit then all else [pattern] := by
  rw [expand, expandInto_of_expands expands (Nat.zero_le _), List.length_nil, Nat.zero_add,
    List.append_nil]
  by_cases fits : all.length ≤ limit
  · rw [if_pos fits, if_pos fits]
    exact List.reverse_reverse all
  · rw [if_neg fits, if_neg fits]

/-- Every pattern has exactly one full expansion. With at most 1024 patterns in it, this is what the
pattern expands to, and each of them expands to itself; with more of them the pattern stays as it
is. -/
theorem expand_full (pattern : List Char) :
    ∃ all, (∀ other, Expands pattern other ↔ other = all) ∧
      expand pattern = (if all.length ≤ 1024 then all else [pattern]) ∧
      (all.length ≤ 1024 → ∀ one ∈ expand pattern, expand one = [one]) ∧ expand pattern ≠ [] := by
  obtain ⟨all, expands⟩ := exists_expands pattern
  have expanded : expand pattern = if all.length ≤ 1024 then all else [pattern] :=
    expand_of_expands expands
  refine ⟨all, fun other => ⟨expands.unique, fun same => same ▸ expands⟩, expanded, ?_, ?_⟩
  · intro fits one member
    rw [expanded, if_pos fits] at member
    exact expand_of_expands (.plain (expands.clean_of_mem member))
  · rw [expanded]
    split
    · exact expands.ne_nil
    · exact List.cons_ne_nil _ _

example : expand "{a,{b,c}}x".toList = ["ax".toList, "bx".toList, "cx".toList] := by
  decide +kernel

end StoreShell.Glob.Braces
