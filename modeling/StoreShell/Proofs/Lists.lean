import Mathlib.Data.List.Forall2

/-! # Lists that are cut and lists that are read

Texts are cut into components at slashes and rows of tokens into commands at operators, and what
comes out is read piece by piece. The facts here are about any such lists.
-/

namespace StoreShell

variable {α β ε : Type}

/-- The pieces of a list lie between the separators. -/
theorem of_mem_splitOnP {p : α → Bool} {xs piece : List α} (member : piece ∈ xs.splitOnP p) {x : α}
    (inside : x ∈ piece) : x ∈ xs ∧ p x = false := by
  induction xs generalizing piece with
  | nil =>
    rw [List.splitOnP_nil, List.mem_singleton] at member
    exact absurd (member ▸ inside) List.not_mem_nil
  | cons y rest ih =>
    rw [List.splitOnP_cons_eq_if_modifyHead] at member
    split at member
    · rcases List.mem_cons.mp member with rfl | later
      · exact absurd inside List.not_mem_nil
      · exact (ih later inside).imp_left (List.mem_cons_of_mem _)
    · next plain =>
      obtain ⟨first, more, pieces⟩ := List.exists_cons_of_ne_nil (List.splitOnP_ne_nil p rest)
      rw [pieces, List.modifyHead_cons, List.mem_cons] at member
      rcases member with rfl | later
      · rcases List.mem_cons.mp inside with rfl | inside
        · exact ⟨List.mem_cons_self .., Bool.eq_false_iff.mpr plain⟩
        · exact (ih (pieces ▸ List.mem_cons_self ..) inside).imp_left (List.mem_cons_of_mem _)
      · exact (ih (pieces ▸ List.mem_cons_of_mem _ later) inside).imp_left (List.mem_cons_of_mem _)

/-- Pieces that are joined by a separator are found again. -/
theorem splitOnP_intercalate {p : α → Bool} {separator : α} (separates : p separator)
    {pieces : List (List α)} (filled : pieces ≠ [])
    (apart : ∀ piece ∈ pieces, ∀ x ∈ piece, p x = false) :
    ([separator].intercalate pieces).splitOnP p = pieces := by
  induction pieces with
  | nil => exact absurd rfl filled
  | cons piece rest ih =>
    obtain ⟨first, later⟩ := List.forall_mem_cons.mp apart
    cases rest with
    | nil => rw [List.intercalate_singleton, List.splitOnP_eq_singleton first]
    | cons next more =>
      rw [List.intercalate_cons_cons, List.append_assoc, List.singleton_append,
        List.splitOnP_append_cons_of_forall_mem first separator separates,
        ih (List.cons_ne_nil _ _) later]

/-- What stands in a joined list is the separator or stands in a piece. -/
theorem of_mem_intercalate {separator x : α} {pieces : List (List α)}
    (member : x ∈ [separator].intercalate pieces) :
    x = separator ∨ ∃ piece ∈ pieces, x ∈ piece := by
  induction pieces with
  | nil => cases member
  | cons piece rest ih =>
    cases rest with
    | nil =>
      rw [List.intercalate_singleton] at member
      exact .inr ⟨piece, List.mem_cons_self .., member⟩
    | cons next more =>
      rw [List.intercalate_cons_cons, List.append_assoc, List.mem_append, List.singleton_append,
        List.mem_cons] at member
      rcases member with inFirst | separates | later
      · exact .inr ⟨piece, List.mem_cons_self .., inFirst⟩
      · exact .inl separates
      · refine (ih later).imp_right fun ⟨found, among, inside⟩ => ?_
        exact ⟨found, List.mem_cons_of_mem _ among, inside⟩

/-- Of a row in which what satisfies `p` is all together, and is the first of what satisfies `q`,
nothing is missed by stopping early. -/
theorem takeWhile_filter_eq_filter {p q : α → Bool} {row : List α}
    (included : ∀ x, p x → q x) (together : row.Pairwise fun x y => q x → p y → p x) :
    (row.filter q).takeWhile p = row.filter p := by
  induction row with
  | nil => rfl
  | cons x rest ih =>
    obtain ⟨first, later⟩ := List.pairwise_cons.mp together
    by_cases here : p x
    · rw [List.filter_cons_of_pos (included x here), List.takeWhile_cons_of_pos here,
        List.filter_cons_of_pos here, ih later]
    · rw [List.filter_cons_of_neg here]
      by_cases reached : q x
      · have none : ∀ y ∈ rest, ¬ p y := fun y member found => here (first y member reached found)
        rw [List.filter_cons_of_pos reached, List.takeWhile_cons_of_neg here,
          List.filter_eq_nil_iff.mpr none]
      · rw [List.filter_cons_of_neg reached, ih later]

theorem exists_of_map_eq_ok {f : α → β} {result : Except ε α} {y : β}
    (done : result.map f = .ok y) : ∃ x, result = .ok x ∧ f x = y := by
  cases result with
  | error e => cases done
  | ok x => exact ⟨x, rfl, Except.ok.inj done⟩

theorem eq_error_of_map_eq_error {f : α → β} {result : Except ε α} {e : ε}
    (failed : result.map f = .error e) : result = .error e := by
  cases result with
  | error first => exact congrArg _ (Except.error.inj failed)
  | ok x => cases failed

/-- A list is read when all of its members are, one by one. -/
theorem mapM_eq_ok_iff {f : α → Except ε β} {xs : List α} {ys : List β} :
    xs.mapM f = .ok ys ↔ List.Forall₂ (fun x y => f x = .ok y) xs ys := by
  induction xs generalizing ys with
  | nil =>
    rw [List.mapM_nil, List.forall₂_nil_left_iff]
    exact ⟨fun read => (Except.ok.inj read).symm, fun none => none ▸ rfl⟩
  | cons x rest ih =>
    simp only [List.mapM_cons, List.forall₂_cons_left_iff, ← ih]
    cases f x <;> cases rest.mapM f <;> simp [bind, Except.bind, pure, Except.pure, eq_comm]

/-- A list that is not read has a member that is not. -/
theorem exists_of_mapM_eq_error {f : α → Except ε β} {xs : List α} {e : ε}
    (failed : xs.mapM f = .error e) : ∃ x ∈ xs, f x = .error e := by
  induction xs with
  | nil => cases failed
  | cons x rest ih =>
    rw [List.mapM_cons] at failed
    cases here : f x with
    | error first =>
      rw [here] at failed
      cases failed
      exact ⟨x, List.mem_cons_self .., here⟩
    | ok y =>
      cases later : rest.mapM f with
      | error _ =>
        rw [here, later] at failed
        cases failed
        obtain ⟨z, member, there⟩ := ih later
        exact ⟨z, List.mem_cons_of_mem _ member, there⟩
      | ok ys =>
        rw [here, later] at failed
        cases failed

/-- Where two lists go together, so do their members. -/
theorem exists_getElem?_of_forall₂ {R : α → β → Prop} {xs : List α} {ys : List β}
    (together : List.Forall₂ R xs ys) {i : Nat} {y : β} (here : ys[i]? = some y) :
    ∃ x, xs[i]? = some x ∧ R x y := by
  induction together generalizing i with
  | nil => cases here
  | @cons x _ _ _ first _ ih =>
    cases i with
    | zero =>
      cases here
      exact ⟨x, rfl, first⟩
    | succ i => exact ih here

/-- Members that can be read one by one can be read together. -/
theorem exists_forall₂_iff {R : α → β → Prop} {xs : List α} :
    (∃ ys, List.Forall₂ R xs ys) ↔ ∀ x ∈ xs, ∃ y, R x y := by
  induction xs with
  | nil => exact ⟨fun _ _ member => absurd member List.not_mem_nil, fun _ => ⟨[], .nil⟩⟩
  | cons x rest ih =>
    rw [List.forall_mem_cons, ← ih]
    constructor
    · rintro ⟨_, _ | ⟨first, later⟩⟩
      exact ⟨⟨_, first⟩, _, later⟩
    · rintro ⟨⟨y, first⟩, ys, later⟩
      exact ⟨y :: ys, .cons first later⟩

section Histories

variable {f : β → α → β} {holds : β → Prop} {s : β} {xs : List α}

private theorem foldl_take_succ {n : Nat} {x : α} (here : xs[n]? = some x) :
    (xs.take (n + 1)).foldl f s = f ((xs.take n).foldl f s) x := by
  rw [List.take_add_one, here, List.foldl_append]
  rfl

/-- What every step of a history keeps holds all along it. -/
theorem forall_foldl_take (start : holds s)
    (step : ∀ n x, xs[n]? = some x → holds ((xs.take n).foldl f s) →
      holds (f ((xs.take n).foldl f s) x)) (n : Nat) : holds ((xs.take n).foldl f s) := by
  induction n with
  | zero => exact start
  | succ n ih =>
    cases here : xs[n]? with
    | none =>
      have whole : xs.take (n + 1) = xs.take n := by
        rw [List.take_add_one, here, Option.toList_none, List.append_nil]
      exact whole ▸ ih
    | some x =>
      rw [foldl_take_succ here]
      exact step n x here ih

/-- What a step keeps exactly if it does not go wrong holds all along a history exactly if no step
of it goes wrong. -/
theorem forall_foldl_take_iff {wrong : β → α → Prop} (start : holds s)
    (step : ∀ n x, xs[n]? = some x → holds ((xs.take n).foldl f s) →
      (holds (f ((xs.take n).foldl f s) x) ↔ ¬ wrong ((xs.take n).foldl f s) x)) :
    (∀ n, holds ((xs.take n).foldl f s)) ↔
      ∀ (n : Nat) (x : α), xs[n]? = some x → ¬ wrong ((xs.take n).foldl f s) x := by
  constructor
  · intro all n x here
    have later := all (n + 1)
    rw [foldl_take_succ here] at later
    exact (step n x here (all n)).mp later
  · intro clean
    exact forall_foldl_take start fun n x here held => (step n x here held).mpr (clean n x here)

end Histories

end StoreShell
