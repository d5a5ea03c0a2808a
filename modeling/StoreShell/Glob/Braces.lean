/-!
# Alternatives in braces

A group `{a,b}` stands for each of its alternatives in turn. A brace that is never closed and a
group without a comma of its own stand for themselves. Replacing the leftmost group makes a pattern
shorter, so the expansion ends; it is given up when it exceeds `Braces.limit` patterns.
-/

namespace StoreShell.Glob.Braces

/-- The most patterns that one pattern may expand to. -/
def limit : Nat := 1024

/-- Reads a group from behind its opening brace, with the alternative being read and those before it
last first: all alternatives, and what follows the closing brace. -/
def alternatives? (depth : Nat) (current : List Char) (done : List (List Char)) :
    List Char → Option (List (List Char) × List Char)
  | [] => none
  | c :: rest =>
    if c = '{' then alternatives? (depth + 1) (c :: current) done rest
    else if c = '}' then
      if depth = 0 then some ((current.reverse :: done).reverse, rest)
      else alternatives? (depth - 1) (c :: current) done rest
    else if c = ',' && depth = 0 then alternatives? 0 [] (current.reverse :: done) rest
    else alternatives? depth (c :: current) done rest

/-- A pattern cut at a group with several alternatives. -/
structure Group where
  before : List Char
  alternatives : List (List Char)
  after : List Char
  deriving DecidableEq, Repr

/-- The leftmost group with several alternatives, given what stands before it, last first. -/
def group? (reversed : List Char) : List Char → Option Group
  | [] => none
  | c :: rest =>
    let further := group? (c :: reversed) rest
    if c = '{' then
      match alternatives? 0 [] [] rest with
      | some (alternatives, after) =>
        if 2 ≤ alternatives.length then some ⟨reversed.reverse, alternatives, after⟩ else further
      | none => further
    else further

/-- What is read of a group gets shorter with what follows it. This is why expanding a pattern ends.
-/
theorem length_alternatives? {depth : Nat} {current cs after : List Char}
    {done all : List (List Char)} {bound : Nat}
    (read : alternatives? depth current done cs = some (all, after))
    (earlier : ∀ one ∈ done, one.length + cs.length < bound)
    (open_ : current.length + cs.length ≤ bound) :
    ∀ one ∈ all, one.length + after.length < bound := by
  fun_induction alternatives? depth current done cs with
  | case1 => cases read
  | case2 depth current done rest ih =>
    refine ih read (fun one h => ?_) ?_
    · have := earlier one h; simp at this; omega
    · simp at open_ ⊢; omega
  | case3 current done rest =>
    cases read
    intro one h
    simp only [List.mem_reverse, List.mem_cons] at h
    rcases h with rfl | h
    · simp at open_ ⊢; omega
    · have := earlier one h; simp at this; omega
  | case4 depth current done rest _ _ ih =>
    refine ih read (fun one h => ?_) ?_
    · have := earlier one h; simp at this; omega
    · simp at open_ ⊢; omega
  | case5 depth current done c rest _ _ _ ih =>
    refine ih read (fun one h => ?_) ?_
    · simp only [List.mem_cons] at h
      rcases h with rfl | h
      · simp at open_ ⊢; omega
      · have := earlier one h; simp at this; omega
    · simp at open_ ⊢; omega
  | case6 depth current done c rest _ _ _ ih =>
    refine ih read (fun one h => ?_) ?_
    · have := earlier one h; simp at this; omega
    · simp at open_ ⊢; omega

/-- A group is found inside the pattern, and any alternative in its place makes it shorter. -/
theorem length_group? {reversed cs : List Char} {g : Group} (found : group? reversed cs = some g) :
    ∀ one ∈ g.alternatives,
      (g.before ++ one ++ g.after).length < reversed.length + cs.length := by
  induction cs generalizing reversed with
  | nil => cases found
  | cons c rest ih =>
    have further : group? (c :: reversed) rest = some g → ∀ one ∈ g.alternatives,
        (g.before ++ one ++ g.after).length < reversed.length + (c :: rest).length := by
      intro found one h
      have := ih found one h
      simp only [List.length_cons] at this ⊢
      omega
    simp only [group?] at found
    split at found
    · split at found
      · rename_i alternatives after read
        split at found
        · cases found
          intro one h
          have bound : one.length + after.length < rest.length + 0 :=
            length_alternatives? read (by simp) (by simp) one h
          simp only [List.length_append, List.length_reverse, List.length_cons]
          omega
        · exact further found
      · exact further found
    · exact further found

set_option linter.unusedVariables false in
/-- Adds the expansion of a pattern to the patterns found so far, both last first, unless that makes
them too many. -/
def expandInto (found : List (List Char)) (pattern : List Char) : Option (List (List Char)) :=
  match h : group? [] pattern with
  | none => if found.length < limit then some (pattern :: found) else none
  | some g => g.alternatives.attach.foldlM
      (fun found ⟨one, _⟩ => expandInto found (g.before ++ one ++ g.after)) found
termination_by pattern.length
decreasing_by
  have := length_group? h one (by assumption)
  simpa using this

/-- The patterns that a pattern stands for, from left to right; a pattern that stands for too many
is left as it is. -/
def expand (pattern : List Char) : List (List Char) :=
  match expandInto [] pattern with
  | some found => found.reverse
  | none => [pattern]

end StoreShell.Glob.Braces
