import StoreShell.Chain.Parser
import StoreShell.Proofs.Lists

/-! # How chains are read

Reading a chain splits the tokens at chain operators and each group at `|`, and walks along the
tokens of each command. This module describes the two outer steps: which groups there are and with
what behind them, that commands and links are read one by one, and that the links of a chain that
was read are `Joined`, as everything that runs a chain expects.
-/

namespace StoreShell

namespace TokenKind

variable {kind : TokenKind}

theorem isSome_connector? : kind.connector?.isSome = kind.isChainOperator := by
  cases kind <;> rfl

theorem ne_last_of_connector? {connector : Connector} (found : kind.connector? = some connector) :
    connector ≠ .last := by
  rintro rfl
  cases kind <;> cases found

end TokenKind

namespace Pipeline

/-- The commands of a pipeline are read one by one, each where it stands. -/
theorem read_eq_mapM (isFirst : Bool) (slices : List (List Token)) :
    read isFirst slices = slices.zipIdx.mapM fun (slice, i) =>
      Segment.ofTokens ⟨isFirst && i = 0, i + 1 = slices.length⟩ slice := by
  induction slices generalizing isFirst with
  | nil => rfl
  | cons slice rest ih =>
    have last : rest.isEmpty = decide (0 + 1 = (slice :: rest).length) := by cases rest <;> simp
    rw [read, ih, last, List.zipIdx_cons, List.zipIdx_succ, List.mapM_cons, List.mapM_map]
    simp [Function.comp_def]

end Pipeline

namespace Chain

variable {group tokens rest : List Token}

/-! ### Groups -/

/-- The groups are what lies between the chain operators. -/
theorem map_fst_groups (group tokens : List Token) : (groups group tokens).map Prod.fst =
    (tokens.splitOnP (·.kind.isChainOperator)).modifyHead (group.reverse ++ ·) := by
  induction tokens generalizing group with
  | nil => simp [groups]
  | cons t rest ih =>
    rw [groups, List.splitOnP_cons_eq_if_modifyHead, ← TokenKind.isSome_connector?]
    cases t.kind.connector? with
    | some connector =>
      rw [List.map_cons, ih]
      simp only [Option.isSome_some, if_true, List.modifyHead_cons, List.append_nil,
        List.reverse_nil, List.nil_append]
      congr 1
      cases rest.splitOnP (·.kind.isChainOperator) <;> rfl
    | none =>
      rw [ih]
      cases rest.splitOnP (·.kind.isChainOperator) <;> simp

/-- Something stands behind each group but the last one. -/
theorem pairwise_groups (group tokens : List Token) :
    (groups group tokens).Pairwise fun g _ => g.2 ≠ .last := by
  induction tokens generalizing group with
  | nil => exact List.pairwise_singleton ..
  | cons t rest ih =>
    rw [groups]
    cases found : t.kind.connector? with
    | some connector =>
      exact List.pairwise_cons.mpr ⟨fun _ _ => TokenKind.ne_last_of_connector? found, ih []⟩
    | none => exact ih (t :: group)

/-- Tokens that are no chain operators go to the group that is being read. -/
theorem groups_append (plain : ∀ t ∈ tokens, t.kind.connector? = none) :
    groups group (tokens ++ rest) = groups (tokens.reverse ++ group) rest := by
  induction tokens generalizing group with
  | nil => rfl
  | cons t tokens ih =>
    rw [List.cons_append, groups, plain t (List.mem_cons_self ..)]
    dsimp only
    rw [ih fun s member => plain s (List.mem_cons_of_mem _ member), List.reverse_cons,
      List.append_assoc, List.singleton_append]

/-! ### Links -/

/-- Whether exactly the last of the links has nothing behind it. -/
def Joined (links : List Link) : Prop :=
  ∀ before link after, links = before ++ link :: after → (link.connector = .last ↔ after = [])

theorem joined_nil : Joined [] := by
  intro before link after whole
  exact absurd whole.symm (by simp)

/-- Only the last link has nothing behind it. -/
theorem joined_cons {link : Link} {links : List Link} :
    Joined (link :: links) ↔ (link.connector = .last ↔ links = []) ∧ Joined links := by
  constructor
  · intro joined
    exact ⟨joined [] link links rfl, fun before other after whole =>
      joined (link :: before) other after (by rw [whole, List.cons_append])⟩
  · rintro ⟨first, joined⟩ before other after whole
    cases before with
    | nil =>
      obtain ⟨rfl, rfl⟩ := List.cons.inj whole
      exact first
    | cons _ before => exact joined before other after (List.cons.inj whole).2

/-- Links with something behind each of them are joined once nothing follows the last one. -/
theorem joined_closeLast {links : List Link}
    (between : links.Pairwise fun link _ => link.connector ≠ .last) : Joined (closeLast links) := by
  fun_induction closeLast links with
  | case1 => exact joined_nil
  | case2 link => exact joined_cons.mpr ⟨by simp, joined_nil⟩
  | case3 link rest several ih =>
    obtain ⟨first, later⟩ := List.pairwise_cons.mp between
    obtain ⟨next, more, rfl⟩ := List.exists_cons_of_ne_nil several
    refine joined_cons.mpr ⟨?_, ih later⟩
    refine iff_of_false (first next (List.mem_cons_self ..)) ?_
    cases more <;> simp [closeLast]

/-- Joined links are left as they are. -/
theorem closeLast_of_joined {links : List Link} (joined : Joined links) :
    closeLast links = links := by
  fun_induction closeLast links with
  | case1 => rfl
  | case2 link =>
    obtain ⟨pipeline, connector⟩ := link
    obtain rfl : connector = .last := (joined_cons.mp joined).1.mpr rfl
    rfl
  | case3 link rest several ih => rw [ih (joined_cons.mp joined).2]

/-- A link is read from a group and has behind it what the group has. -/
def Reads (g : List Token × Connector) (link : Link) : Prop :=
  Pipeline.ofTokens g.1 = .ok link.pipeline ∧ g.2 = link.connector

/-- A chain is read from the groups that are not empty. -/
theorem ofTokens_eq_ok_iff {c : Chain} : ofTokens tokens = .ok c ↔
    ∃ links, List.Forall₂ Reads ((groups [] tokens).filter fun g => !g.1.isEmpty) links ∧
      c = ⟨closeLast links⟩ := by
  have member : ∀ (g : List Token × Connector) (link : Link),
      (Pipeline.ofTokens g.1).map (fun pipeline => Link.mk pipeline g.2) = .ok link ↔
        Reads g link := by
    rintro ⟨group, connector⟩ ⟨pipeline, behind⟩
    cases read : Pipeline.ofTokens group <;> simp [Reads, read, Except.map]
  have same : (fun (g : List Token × Connector) link =>
      (Pipeline.ofTokens g.1).map (fun pipeline => Link.mk pipeline g.2) = .ok link) = Reads :=
    funext fun g => funext fun link => propext (member g link)
  rw [← same]
  simp only [← mapM_eq_ok_iff, ofTokens]
  cases ((groups [] tokens).filter fun g => !g.1.isEmpty).mapM fun g =>
      (Pipeline.ofTokens g.1).map fun pipeline => Link.mk pipeline g.2 with
  | error failure => simp [bind, Except.bind]
  | ok links => simp [bind, Except.bind, pure, Except.pure, eq_comm]

/-- The links of a chain that was read are joined. -/
theorem joined_of_ofTokens {c : Chain} (read : ofTokens tokens = .ok c) : Joined c.links := by
  obtain ⟨links, reads, rfl⟩ := ofTokens_eq_ok_iff.mp read
  have same : ((groups [] tokens).filter fun g => !g.1.isEmpty).map Prod.snd =
      links.map Link.connector := by
    rw [← List.forall₂_eq_eq_eq, List.forall₂_map_left_iff, List.forall₂_map_right_iff]
    exact reads.imp fun _ _ reads => reads.2
  have between := (pairwise_groups [] tokens).filter fun g => !g.1.isEmpty
  rw [← List.pairwise_map (R := fun connector _ => connector ≠ Connector.last), same,
    List.pairwise_map] at between
  exact joined_closeLast between

end Chain

end StoreShell
