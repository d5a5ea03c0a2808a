import Mathlib.Data.List.SplitBy
import StoreShell.Execution
import StoreShell.Proofs.ChainReading

/-! # Chains as and-or lists

The usual meaning of a chain is given by trees. Every `;` ends an and-or list; the lists run one
after the other, and a list `p && q || r` is the expression `(p && q) || r`, in which a pipeline
that is skipped leaves the value of what stands in front. A shell runs the links in one pass
instead, with a verdict so far and a gate. `runChain_eq_evaluate` says that both run the same
pipelines in the same order and come to the same verdict, for every monad in which pipelines run:
whatever a pipeline does and makes of the pipelines before it.
-/

namespace StoreShell

/-- Pipelines joined by `&&` and `||`, grouped from the left. -/
inductive AndOr where
  | pipeline (p : Pipeline)
  | and (x : AndOr) (p : Pipeline)
  | or (x : AndOr) (p : Pipeline)

namespace AndOr

variable {m : Type → Type} [Monad m]

/-- The value of an expression. A pipeline behind `&&` runs only if what stands in front has
succeeded, one behind `||` only if it has failed. -/
def evaluate (run : Pipeline → m Verdict) : AndOr → m Verdict
  | pipeline p => run p
  | and x p => do
    let value ← x.evaluate run
    if value.isOk then run p else return value
  | or x p => do
    let value ← x.evaluate run
    if value.isOk then return value else run p

/-- The expression that an expression begins, given what stands behind it and the links there. -/
def extend (x : AndOr) (connector : Connector) : List Link → AndOr
  | [] => x
  | link :: rest =>
    match connector with
    | .and => extend (.and x link.pipeline) link.connector rest
    | .or => extend (.or x link.pipeline) link.connector rest
    | .sequence | .last => x

/-- The expression that links stand for. -/
def ofLinks? : List Link → Option AndOr
  | [] => none
  | link :: rest => some (extend (.pipeline link.pipeline) link.connector rest)

end AndOr

namespace Chain

/-- The and-or lists of a chain, which is cut behind each `;`. -/
def andOrLists (c : Chain) : List AndOr :=
  (c.links.splitBy fun link _ => link.connector ≠ .sequence).filterMap AndOr.ofLinks?

/-- Evaluates the and-or lists of a chain one after the other. The value of the chain is that of the
last one. -/
def evaluate {m : Type → Type} [Monad m] (run : Pipeline → m Verdict) (c : Chain) : m Verdict :=
  c.andOrLists.foldlM (fun _ list => list.evaluate run) (.ok ())

end Chain

namespace Execution

variable {m : Type → Type} [Monad m] [LawfulMonad m] {run : Pipeline → m Verdict}

/-- Whether a connector joins pipelines of one and-or list. -/
def Binds (connector : Connector) : Prop := connector = .and ∨ connector = .or

private theorem runLinks_cons (sofar : Verdict) (gate : Connector) (link : Link)
    (rest : List Link) : runLinks (pure false) run sofar gate (link :: rest) =
      if gate.allowsNext (!sofar.isOk) then do
        runLinks (pure false) run (← run link.pipeline) link.connector rest
      else runLinks (pure false) run sofar link.connector rest := by
  rw [runLinks]
  simp only [pure_bind, Bool.false_eq_true, if_false]

/-- Running on along the links of an and-or list is evaluating the expression that they make of what
has run before. -/
theorem evaluate_extend {link : Link} {rest : List Link}
    (bound : (link :: rest).IsChain fun link _ => Binds link.connector) (x : AndOr)
    (behind : List Link) :
    (do runLinks (pure false) run (← x.evaluate run) link.connector (rest ++ behind)) = (do
      runLinks (pure false) run (← (x.extend link.connector rest).evaluate run)
        ((link :: rest).getLast (List.cons_ne_nil _ _)).connector behind) := by
  induction rest generalizing link x with
  | nil => rfl
  | cons next rest ih =>
    obtain ⟨binds, bound⟩ := List.isChain_cons_cons.mp bound
    rw [List.getLast_cons (List.cons_ne_nil _ _), List.cons_append]
    rcases binds with and | or
    · rw [and, AndOr.extend, ← ih bound (.and x next.pipeline), AndOr.evaluate, bind_assoc]
      refine bind_congr fun value => ?_
      rw [runLinks_cons, Connector.allowsNext, Bool.not_not]
      cases value.isOk with
      | true => rfl
      | false => simp only [Bool.false_eq_true, if_false, pure_bind]
    · rw [or, AndOr.extend, ← ih bound (.or x next.pipeline), AndOr.evaluate, bind_assoc]
      refine bind_congr fun value => ?_
      rw [runLinks_cons, Connector.allowsNext]
      cases value.isOk with
      | true => simp only [Bool.not_true, Bool.false_eq_true, if_false, if_true, pure_bind]
      | false => rfl

/-- And-or lists run one after the other. -/
theorem runLinks_flatten {lists : List (List Link)} (filled : [] ∉ lists)
    (bound : ∀ list ∈ lists, list.IsChain fun link _ => Binds link.connector)
    (ended : lists.IsChain fun list _ => ∃ some, (list.getLast some).connector = .sequence)
    (sofar : Verdict) {gate : Connector} (ungated : gate = .last ∨ gate = .sequence) :
    runLinks (pure false) run sofar gate lists.flatten =
      (lists.filterMap AndOr.ofLinks?).foldlM (fun _ list => list.evaluate run) sofar := by
  induction lists generalizing sofar gate with
  | nil => rfl
  | cons list lists ih =>
    rw [List.mem_cons, not_or] at filled
    obtain ⟨link, rest, rfl⟩ := List.exists_cons_of_ne_nil (Ne.symm filled.1)
    obtain ⟨first, later⟩ := List.forall_mem_cons.mp bound
    have runs : gate.allowsNext (!sofar.isOk) := by
      rcases ungated with rfl | rfl <;> rfl
    rw [List.flatten_cons, List.cons_append, runLinks_cons, if_pos runs]
    refine (evaluate_extend first (.pipeline link.pipeline) lists.flatten).trans ?_
    rw [List.filterMap_cons, AndOr.ofLinks?, List.foldlM_cons]
    refine bind_congr fun value => ?_
    cases lists with
    | nil => rfl
    | cons next lists =>
      obtain ⟨⟨_, ends⟩, ended⟩ := List.isChain_cons_cons.mp ended
      rw [ends]
      exact ih filled.2 later ended value (Or.inr rfl)

/-- What is cut between `;` is joined by `&&` and `||`. -/
theorem isChain_binds {links list : List Link} (joined : Chain.Joined links)
    (member : list ∈ links.splitBy fun link _ => link.connector ≠ .sequence) :
    list.IsChain fun link _ => Binds link.connector := by
  obtain ⟨before, after, whole⟩ := List.infix_of_mem_flatten member
  rw [List.flatten_splitBy] at whole
  refine List.isChain_iff_forall_rel_of_append_cons_cons.mpr ?_
  rintro link next earlier later rfl
  have inner := List.isChain_iff_forall_rel_of_append_cons_cons.mp
    (List.isChain_of_mem_splitBy member) rfl
  have followed := joined (before ++ earlier) link (next :: later ++ after) (by simp [← whole])
  rw [Binds]
  cases behind : link.connector <;> simp [behind] at inner followed ⊢

/-- One pass along the links of a chain is the evaluation of its and-or lists. -/
theorem runChain_of_joined {c : Chain} (joined : Chain.Joined c.links) :
    runChain (pure false) run c = c.evaluate run := by
  have ends := List.isChain_getLast_head_splitBy (fun link _ => link.connector ≠ .sequence) c.links
  rw [runChain, Chain.evaluate, Chain.andOrLists, ← runLinks_flatten (List.nil_notMem_splitBy _ _)
    (fun list => isChain_binds joined) (ends.imp ?_) (.ok ()) (Or.inl rfl), List.flatten_splitBy]
  rintro list _ ⟨some, -, ends⟩
  exact ⟨some, by simpa using ends⟩

/-- A chain that was read runs the pipelines that the evaluation of its and-or lists prescribes, in
this order, and has the value of this evaluation, unless it is cancelled. -/
theorem runChain_eq_evaluate {tokens : List Token} {c : Chain}
    (read : Chain.ofTokens tokens = .ok c) : runChain (pure false) run c = c.evaluate run :=
  runChain_of_joined (Chain.joined_of_ofTokens read)

/-- Takes down which pipelines run. Every second one fails. -/
def takeDown (p : Pipeline) : StateM (List (List String)) Verdict := fun earlier =>
  (if earlier.length % 2 = 1 then .error (.commandNotFound "odd") else .ok (), earlier ++ [p.names])

/-- In `a || c && b && e && f ; d | d || g` four pipelines are skipped, two of them in a row. -/
theorem runChain_eq_evaluate_of_skips : ∃ tokens c,
    (tokenize "a || c && b && e && f ; d | d || g").toOption = some tokens ∧
    Chain.ofTokens tokens = .ok c ∧ runChain (pure false) takeDown c = c.evaluate takeDown ∧
    ((c.evaluate takeDown).run []).map Except.isOk id = (true, [["a"], ["b"], ["d", "d"]]) := by
  have cut : ((tokenize "a || c && b && e && f ; d | d || g").toOption.map fun tokens =>
      (Chain.ofTokens tokens).toOption.map fun c =>
        ((runChain (pure false) takeDown c).run []).map Except.isOk id) =
      some (some (true, [["a"], ["b"], ["d", "d"]])) := by
    decide +kernel
  obtain ⟨tokens, tokenized, shown⟩ := Option.map_eq_some_iff.mp cut
  obtain ⟨c, read, shown⟩ := Option.map_eq_some_iff.mp shown
  have read : Chain.ofTokens tokens = .ok c := by
    cases read' : Chain.ofTokens tokens <;> simp_all [Except.toOption]
  have same : runChain (pure false) takeDown c = c.evaluate takeDown := runChain_eq_evaluate read
  exact ⟨tokens, c, tokenized, read, same, same ▸ shown⟩

/-! ### Lines that are not cancelled -/

section Quiet

variable {σ : Type} {cancelled : σ → Bool} {runs : Pipeline → StateT σ Option Verdict}

/-- Links run as if they could not be cancelled, if nothing that they run cancels them. -/
theorem runLinks_of_quiet
    (quiet : ∀ p s verdict s', cancelled s = false → runs p s = some (verdict, s') →
      cancelled s' = false) {s : σ} (live : cancelled s = false) (links : List Link)
    (sofar : Verdict) (gate : Connector) :
    runLinks (do return cancelled (← get)) runs sofar gate links s =
      runLinks (pure false) runs sofar gate links s := by
  induction links generalizing s sofar gate with
  | nil => rfl
  | cons link rest ih =>
    rw [runLinks, runLinks_cons]
    split
    · have running : (do
          runLinks (do return cancelled (← get)) runs (← runs link.pipeline) link.connector rest) s
            = (do runLinks (pure false) runs (← runs link.pipeline) link.connector rest) s := by
        refine Option.bind_congr fun (verdict, s') ran => ?_
        exact ih (quiet _ _ _ _ live ran) verdict _
      rw [← running]
      change (if cancelled s then pure (.error .cancelled) else _ : StateT σ Option Verdict) s = _
      rw [live]
      rfl
    · exact ih live sofar _

end Quiet

/-- A line has the value of its and-or lists, unless the streams of the caller cannot be flushed, as
long as its pipelines do not cancel it. -/
theorem runLineChain_eq_evaluate {r : Registry} {c : Chain} (joined : Chain.Joined c.links)
    (quiet : ∀ p (stage : Stage) verdict stage', stage.world.cancelled = false →
      runPipeline r p stage = some (verdict, stage') → stage'.world.cancelled = false)
    {stage : Stage} (live : stage.world.cancelled = false) :
    runLineChain r c stage = (do
      let verdict ← c.evaluate (runPipeline r)
      return flushCallers (← get).outlets verdict : OnStage Verdict) stage := by
  have chain : runChain (do return (← get).world.cancelled) (runPipeline r) c stage =
      c.evaluate (runPipeline r) stage := by
    rw [← runChain_of_joined joined]
    exact runLinks_of_quiet quiet live c.links (.ok ()) .last
  exact congrArg (Option.bind · _) chain

end Execution

end StoreShell
