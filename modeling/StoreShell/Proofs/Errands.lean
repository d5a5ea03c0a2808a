import StoreShell.Proofs.CacheConsistency
import StoreShell.Proofs.LoaderTurns
import StoreShell.Proofs.OfferedChildren

/-! # Getting the children of a folder among others

An *errand* is one piece of work that gets the children of a folder, in whatever surroundings:
others may leave the world in any state at any time before it has ended, and the service may answer
its calls with anything. What an errand does by itself is little. It claims the folder, calls the
service, takes the answer and gives the claim back, up to three times, and each of these is one
step. So it ends after a dozen steps that are not spent waiting (`Phase`, `ensureChildren_ends`).
-/

namespace StoreShell

open StoreShell.Path

/-! ### What giving a claim back does -/

/-- Giving a claim back either leaves all that is known as it was, or it installs the listing, and
then the children of the folder are known and told. -/
theorem World.answer_finishFetch_cases (w : World) (cache : Nat) (folder : String)
    (listing : Option (List Entry)) {told : Option (List Entry)} {w' : World}
    (given : w.answer (.finishFetch cache folder listing) = (told, w')) :
    (w'.cacheAt cache).flight? (normalize folder) = none ∧
      (told = none ∧ (w'.cacheAt cache).nodes = (w.cacheAt cache).nodes ∨
        ∃ children, told = some children ∧
          (w'.cacheAt cache).children? folder = some children) := by
  rcases Cache.finishFetch_cases (w.cacheAt cache) folder listing with
    ⟨-, dropped⟩ | ⟨entries, rfl, fresh, installed⟩
  · rw [answer, onCache, dropped] at given
    cases given
    refine ⟨?_, Or.inl ⟨rfl, nodes_cacheAt_setCache rfl⟩⟩
    by_cases inside : cache < w.caches.length
    · rw [cacheAt_setCache inside, Cache.flight?_landed, if_pos rfl]
    · rw [cacheAt_setCache_of_le (Nat.le_of_not_lt inside)]
      rfl
  · have inside : cache < w.caches.length := by
      by_contra outside
      rw [cacheAt_of_le (Nat.le_of_not_lt outside)] at fresh
      cases fresh
    rw [answer, onCache, installed] at given
    cases given
    obtain ⟨children, known⟩ : ∃ children, (((w.cacheAt cache).landed (normalize folder)).install
        (normalize folder) entries).children? folder = some children :=
      ⟨_, by rw [Cache.children?, Cache.childNames?_install_self]; rfl⟩
    rw [cacheAt_setCache inside, Cache.flight?_install, Cache.flight?_landed, if_pos rfl]
    exact ⟨rfl, Or.inr ⟨children, known, known⟩⟩

/-- Giving a claim back with a listing of proper names keeps the cache in step. -/
theorem World.inStep_answer_finishFetch {w : World} {cache : Nat} {folder : String}
    {listing : Option (List Entry)} (inStep : (w.cacheAt cache).InStep)
    (named : (Cache.Operation.finishFetch folder listing).WellNamed) :
    ((w.answer (.finishFetch cache folder listing)).2.cacheAt cache).InStep := by
  rw [answer_finishFetch]
  by_cases inside : cache < w.caches.length
  · rw [cacheAt_setCache inside]
    exact inStep.apply named
  · rw [cacheAt_setCache_of_le (Nat.le_of_not_lt inside)]
    exact Cache.inStep_of_rootOnly rfl

namespace Cache

variable {c : Cache} {folder : String} {entries : List Entry}

private theorem forall₂_filterMap {α β : Type} (f : α → Option β) (xs : List α) :
    List.Forall₂ (fun x y => f x = some y) (xs.filter fun x => (f x).isSome) (xs.filterMap f) := by
  induction xs with
  | nil => exact .nil
  | cons x rest ih =>
    cases found : f x with
    | none => simpa [found] using ih
    | some y =>
      rw [List.filter_cons_of_pos (by rw [found]; rfl), List.filterMap_cons_some found]
      exact .cons found ih

/-- The children of a folder come in strictly ascending order of the names that a cache has for
them. -/
theorem exists_names_of_children? (known : c.children? folder = some entries) :
    ∃ names : List String, names.Pairwise (· < ·) ∧
      List.Forall₂ (fun name e => c.entryAt? (join (normalize folder) name) = some e)
        names entries := by
  obtain ⟨names, -, rfl⟩ := Option.map_eq_some_iff.mp known
  refine ⟨_, ?_, forall₂_filterMap _ names.toList⟩
  exact (Std.TreeSet.ordered_toList.imp compare_lt_iff_lt.mp).filter _

/-- If entries come under their own names, these are the names. -/
theorem InStep.pairwise_children? (inStep : c.InStep) (known : c.children? folder = some entries) :
    (entries.map Entry.name).Pairwise (· < ·) := by
  have loaded : c.isLoaded folder := by
    obtain ⟨names, listed, -⟩ := Option.map_eq_some_iff.mp known
    exact Option.isSome_of_eq_some listed
  obtain ⟨others, known', ordered, -⟩ := inStep.consistent.children folder loaded
  cases known.symm.trans known'
  exact ordered

end Cache

/-! ### Errands -/

/-- A piece of work that gets the children of a folder: the world, which it shares with others, what
is left of its script, whether it waits for the answer of the service, the folders that it has asked
the service to list, and the answers that it has got. -/
structure Errand where
  world : World
  script : Script (Except Failure (List Entry))
  pending : Bool := false
  asked : List String := []
  answers : List (Except Failure (List Entry)) := []

namespace Errand

/-- Something that happens to an errand or its surroundings. -/
inductive Move where
  /-- The errand has its turn. -/
  | turn
  /-- The service answers the errand. -/
  | answer (answer : Except Failure (List Entry))
  /-- Others have left the world like this. -/
  | others (w : World)

/-- Whether a move is one of the errand. -/
def Move.isOwn : Move → Bool
  | .turn | .answer _ => true
  | .others _ => false

/-- Whether what happens goes by proper names: the service lists children under different names that
children can have, and what others have done to a cache is a number of well-named operations. -/
def Move.WellNamed (cache : Nat) (s : Errand) : Move → Prop
  | .turn | .answer (.error _) => True
  | .answer (.ok entries) =>
    (∀ e ∈ entries, IsName e.name) ∧ entries.Pairwise fun a b => a.name ≠ b.name
  | .others w => ∃ operations : List Cache.Operation, (∀ o ∈ operations, o.WellNamed) ∧
      w.cacheAt cache = (s.world.cacheAt cache).after operations

def start (w : World) (cache remote : Nat) (folder : String) : Errand :=
  { world := w, script := (Task.ensureChildren cache remote folder).toScript }

/-- Lets something happen to an errand. What is not possible at the time leaves it as it is, and so
does everything once it has ended. -/
def move (s : Errand) (m : Move) : Errand :=
  match s.script, m with
  | .done _, _ => s
  | _, .others w => { s with world := w }
  | .list l _, .turn =>
    if s.pending then s else { s with pending := true, asked := s.asked ++ [l.folder] }
  | .list _ next, .answer a =>
    if s.pending then { s with script := next a, pending := false, answers := s.answers ++ [a] }
    else s
  | script, .turn => { s with world := (script.turn s.world).1, script := (script.turn s.world).2 }
  | _, .answer _ => s

def play (s : Errand) (moves : List Move) : Errand := moves.foldl move s

/-- Whether an errand waits, for the answer of the service or for another listing of the folder. -/
def waits (s : Errand) : Bool :=
  s.pending || match s.script with
    | .claim cache folder _ => (s.world.claim? cache folder).isNone
    | _ => false

/-- Whether a move is a chance for an errand to go on: a turn for which it does not wait, or the
answer for which it does. -/
def isChance (s : Errand) : Move → Bool
  | .turn => !s.waits
  | .answer _ => s.pending
  | .others _ => false

/-- How many of the moves are chances for an errand. -/
def chances (s : Errand) : List Move → Nat
  | [] => 0
  | m :: rest => (s.isChance m).toNat + (s.move m).chances rest

/-! ### What an errand has got to do -/

/-- What an errand does once it has given its claim back with a listing: it has the children of the
folder, or the listing went stale. -/
def handBack (whenStale : List Entry → Script (Except Failure (List Entry)))
    (entries : List Entry) : Option (List Entry) → Script (Except Failure (List Entry))
  | some children => .done (.ok children)
  | none => whenStale entries

/-- What an errand does with an answer of the service. -/
def handOver (cache : Nat) (folder : String)
    (whenStale : List Entry → Script (Except Failure (List Entry))) :
    Except Failure (List Entry) → Script (Except Failure (List Entry))
  | .error failure => .ask (.finishFetch cache folder none) fun _ => .done (.error failure)
  | .ok entries => .ask (.finishFetch cache folder (some entries)) (handBack whenStale entries)

/-- What an errand does if the cache knows the children of the folder, or else has it claimed. -/
def goOn (cache remote : Nat) (folder : String)
    (whenStale : List Entry → Script (Except Failure (List Entry))) :
    Option (List Entry) → Script (Except Failure (List Entry))
  | some children => .done (.ok children)
  | none => .list ⟨remote, folder, .asked⟩ (handOver cache folder whenStale)

/-- What an errand does with a stale listing, if it may list the folder so many times more. -/
def relist (cache remote : Nat) (folder : String) :
    Nat → List Entry → Script (Except Failure (List Entry))
  | 0, entries => .done (.ok (Task.sortByName entries))
  | again + 1, _ => Task.ensureChildrenIn cache remote folder again

theorem listOnce_eq (cache remote : Nat) (folder : String)
    (whenStale : List Entry → Script (Except Failure (List Entry))) :
    Task.listOnce cache remote folder whenStale =
      .claim cache folder (goOn cache remote folder whenStale) := by
  rw [Task.listOnce]
  congr 1
  funext known
  cases known with
  | some children => rfl
  | none =>
    dsimp only [goOn]
    congr 1
    funext answer
    cases answer with
    | error failure => rfl
    | ok entries =>
      dsimp only [handOver]
      congr 1
      funext told
      cases told <;> rfl

/-- Getting the children of a folder is a claim and what an errand does with its answer. -/
theorem ensureChildrenIn_eq (cache remote : Nat) (folder : String) (again : Nat) :
    Task.ensureChildrenIn cache remote folder again =
      .claim cache folder (goOn cache remote folder (relist cache remote folder again)) := by
  rw [← listOnce_eq]
  cases again <;> rfl

/-- How an errand may end, given the cache at that moment and the last answer of the service. -/
inductive Ends (c : Cache) (folder : String) (last : Option (Except Failure (List Entry))) :
    Except Failure (List Entry) → Prop where
  | failed {failure} : last = some (.error failure) → c.flight? (normalize folder) = none →
      Ends c folder last (.error failure)
  | known {children} : c.children? folder = some children → Ends c folder last (.ok children)
  | listed {entries} : last = some (.ok entries) →
      Ends c folder last (.ok (Task.sortByName entries))

/-- How far an errand has come, with the number of steps that it has to go at most. Each attempt
takes four: to claim the folder, to call the service, to get the answer, to give the claim back. -/
inductive Phase (cache remote : Nat) (folder : String) : Nat → Errand → Prop where
  | claims {w again answers} : answers.length + again = 2 →
      Phase cache remote folder (4 * again + 4)
        ⟨w, .claim cache folder (goOn cache remote folder (relist cache remote folder again)),
          false, List.replicate answers.length folder, answers⟩
  | asks {w again answers} : answers.length + again = 2 →
      Phase cache remote folder (4 * again + 3)
        ⟨w, .list ⟨remote, folder, .asked⟩
            (handOver cache folder (relist cache remote folder again)),
          false, List.replicate answers.length folder, answers⟩
  | awaits {w again answers} : answers.length + again = 2 →
      Phase cache remote folder (4 * again + 2)
        ⟨w, .list ⟨remote, folder, .asked⟩
            (handOver cache folder (relist cache remote folder again)),
          true, List.replicate (answers.length + 1) folder, answers⟩
  | gives {w again answers answer} : answers.length + again = 3 → answers.getLast? = some answer →
      Phase cache remote folder (4 * again + 1)
        ⟨w, handOver cache folder (relist cache remote folder again) answer,
          false, List.replicate answers.length folder, answers⟩
  | ended {w answers result} : answers.length ≤ 3 →
      Ends (w.cacheAt cache) folder answers.getLast? result →
      Phase cache remote folder 0
        ⟨w, .done result, false, List.replicate answers.length folder, answers⟩

variable {cache remote n : Nat} {folder : String} {s : Errand}

/-- An errand begins with no call made and with at most twelve chances before it. -/
theorem phase_start (w : World) (cache remote : Nat) (folder : String) :
    Phase cache remote (normalize folder) 12 (start w cache remote folder) := by
  have script : (Task.ensureChildren cache remote folder).toScript =
      .claim cache (normalize folder)
        (goOn cache remote (normalize folder) (relist cache remote (normalize folder) 2)) :=
    ensureChildrenIn_eq cache remote (normalize folder) 2
  rw [start, script]
  exact @Phase.claims cache remote (normalize folder) w 2 [] rfl

/-! ### Steps of an errand -/

/-- What others do takes an errand neither back nor ahead. -/
theorem Phase.others (phase : Phase cache remote folder n s) (w : World) :
    Phase cache remote folder n (s.move (.others w)) := by
  cases phase with
  | claims count => exact .claims count
  | asks count => exact .asks count
  | awaits count => exact .awaits count
  | @gives _ _ _ a count last =>
    cases a with
    | error | ok => exact .gives count last
  | ended few ends => exact .ended few ends

/-- The answer of the service takes an errand ahead if it waits for one. -/
theorem Phase.answer (phase : Phase cache remote folder n s) (a : Except Failure (List Entry)) :
    ∃ k, Phase cache remote folder k (s.move (.answer a)) ∧ k ≤ n - s.pending.toNat ∧
      (s.move (.answer a)).world = s.world := by
  cases phase with
  | claims count => exact ⟨_, .claims count, Nat.le_refl _, rfl⟩
  | asks count => exact ⟨_, .asks count, Nat.le_refl _, rfl⟩
  | @awaits w again answers count =>
    have got := @Phase.gives cache remote folder w again (answers ++ [a]) a
      (by rw [List.length_append, List.length_singleton]; omega) List.getLast?_concat
    rw [List.length_append, List.length_singleton] at got
    exact ⟨_, got, Nat.le_refl _, rfl⟩
  | @gives _ _ _ b count last =>
    cases b with
    | error | ok => exact ⟨_, .gives count last, Nat.le_refl _, rfl⟩
  | ended few ends => exact ⟨0, .ended few ends, Nat.zero_le _, rfl⟩

/-- A turn takes an errand ahead if it does not wait, and leaves all that is known as it is, unless
the errand ends with children. -/
theorem Phase.turn (phase : Phase cache remote folder n s) :
    ∃ k, Phase cache remote folder k (s.move .turn) ∧ k ≤ n - (!s.waits).toNat ∧
      (((s.move .turn).world.cacheAt cache).nodes = (s.world.cacheAt cache).nodes ∨
        ∃ children, (s.move .turn).script = .done (.ok children)) := by
  cases phase with
  | @claims w again answers count =>
    simp only [Errand.move, waits, Script.turn, Bool.false_or]
    cases claimed : w.claim? cache folder with
    | none => exact ⟨_, .claims count, Nat.le_refl _, Or.inl rfl⟩
    | some result =>
      obtain ⟨_ | children, w'⟩ := result
      · obtain ⟨begun, rfl⟩ := World.beginFetch_of_claim? claimed
        have kept := (Cache.beginFetch_of_claimed _ folder begun).1
        exact ⟨_, .asks count, Nat.le_refl _, Or.inl (World.nodes_cacheAt_setCache kept)⟩
      · obtain rfl := World.eq_of_claim? claimed
        have known := World.children?_of_claim? claimed
        exact ⟨_, .ended (by omega) (.known known), Nat.zero_le _, Or.inl rfl⟩
  | @asks w again answers count =>
    have called := @Phase.awaits cache remote folder w again answers count
    rw [List.replicate_succ'] at called
    exact ⟨_, called, Nat.le_refl _, Or.inl rfl⟩
  | awaits count => exact ⟨_, .awaits count, Nat.le_refl _, Or.inl rfl⟩
  | @gives w again answers a count last =>
    cases a with
    | error failure =>
      have free := (World.answer_finishFetch_cases w cache folder none rfl).1
      exact ⟨_, .ended (by omega) (.failed last free), Nat.zero_le _,
        Or.inl (World.nodes_cacheAt_setCache rfl)⟩
    | ok entries =>
      have step : Errand.move ⟨w, handOver cache folder (relist cache remote folder again)
            (.ok entries), false, List.replicate answers.length folder, answers⟩ .turn =
          ⟨(w.answer (.finishFetch cache folder (some entries))).2,
            handBack (relist cache remote folder again) entries
              (w.answer (.finishFetch cache folder (some entries))).1, false,
            List.replicate answers.length folder, answers⟩ := rfl
      rw [step]
      cases given : w.answer (.finishFetch cache folder (some entries)) with
      | mk told w' =>
        obtain ⟨-, ⟨rfl, kept⟩ | ⟨children, rfl, known⟩⟩ :=
          World.answer_finishFetch_cases w cache folder (some entries) given
        · cases again with
          | zero => exact ⟨_, .ended (by omega) (.listed last), Nat.zero_le _, Or.inl kept⟩
          | succ again =>
            rw [handBack, relist, ensureChildrenIn_eq]
            exact ⟨_, .claims (by omega), Nat.le_refl _, Or.inl kept⟩
        · exact ⟨_, .ended (by omega) (.known known), Nat.zero_le _, Or.inr ⟨children, rfl⟩⟩
  | ended few ends => exact ⟨0, .ended few ends, Nat.zero_le _, Or.inl rfl⟩

/-- A move takes an errand no step back, and a step ahead if it is a chance. By itself an errand
leaves all that is known as it is, unless it ends with children. -/
theorem Phase.move (phase : Phase cache remote folder n s) (m : Move) :
    ∃ k, Phase cache remote folder k (s.move m) ∧ k ≤ n - (s.isChance m).toNat ∧
      (m.isOwn → ((s.move m).world.cacheAt cache).nodes = (s.world.cacheAt cache).nodes ∨
        ∃ children, (s.move m).script = .done (.ok children)) := by
  cases m with
  | turn =>
    obtain ⟨k, next, ahead, keeps⟩ := phase.turn
    exact ⟨k, next, ahead, fun _ => keeps⟩
  | answer a =>
    obtain ⟨k, next, ahead, same⟩ := phase.answer a
    exact ⟨k, next, ahead, fun _ => Or.inl (by rw [same])⟩
  | others w => exact ⟨n, phase.others w, Nat.le_refl _, nofun⟩

/-- Whether a cache is in step and an errand has got listings of proper names only. -/
structure InOrder (cache : Nat) (s : Errand) : Prop where
  inStep : (s.world.cacheAt cache).InStep
  named : ∀ {entries}, .ok entries ∈ s.answers → ∀ e ∈ entries, IsName e.name
  distinct : ∀ {entries}, .ok entries ∈ s.answers → entries.Pairwise fun a b => a.name ≠ b.name

/-- A turn puts into the cache at most a listing of proper names that the errand has got. -/
theorem Phase.inOrder_turn (phase : Phase cache remote folder n s) (ordered : s.InOrder cache) :
    (s.move .turn).InOrder cache := by
  cases phase with
  | @claims w again answers count =>
    simp only [Errand.move, Script.turn]
    cases claimed : w.claim? cache folder with
    | none => exact ordered
    | some result =>
      obtain ⟨_ | children, w'⟩ := result
      · obtain ⟨begun, rfl⟩ := World.beginFetch_of_claim? claimed
        have kept := (Cache.beginFetch_of_claimed _ folder begun).1
        exact ⟨ordered.inStep.of_nodes (World.nodes_cacheAt_setCache kept), ordered.named,
          ordered.distinct⟩
      · obtain rfl := World.eq_of_claim? claimed
        exact ⟨ordered.inStep, ordered.named, ordered.distinct⟩
  | asks | awaits | ended => exact ⟨ordered.inStep, ordered.named, ordered.distinct⟩
  | @gives w again answers a count last =>
    cases a with
    | error failure =>
      have noListing : (Cache.Operation.finishFetch folder none).WellNamed := trivial
      exact ⟨World.inStep_answer_finishFetch ordered.inStep noListing, ordered.named,
        ordered.distinct⟩
    | ok entries =>
      have own : (Cache.Operation.finishFetch folder (some entries)).WellNamed :=
        ordered.named (List.mem_of_getLast? last)
      exact ⟨World.inStep_answer_finishFetch ordered.inStep own, ordered.named, ordered.distinct⟩

/-- An answer does nothing to the cache yet. -/
theorem Phase.inOrder_answer (phase : Phase cache remote folder n s) (ordered : s.InOrder cache)
    {a : Except Failure (List Entry)} (named : (Move.answer a).WellNamed cache s) :
    (s.move (.answer a)).InOrder cache := by
  cases phase with
  | claims count | asks count | ended few ends => exact ordered
  | @gives _ _ _ b count last =>
    cases b with
    | error | ok => exact ordered
  | @awaits w again answers count =>
    refine ⟨ordered.inStep, fun {entries} got => ?_, fun {entries} got => ?_⟩
    · rcases List.mem_append.mp got with before | here
      · exact ordered.named before
      · cases List.mem_singleton.mp here
        exact named.1
    · rcases List.mem_append.mp got with before | here
      · exact ordered.distinct before
      · cases List.mem_singleton.mp here
        exact named.2

/-- What others do to the cache by proper names keeps it in step. -/
theorem Phase.inOrder_others (phase : Phase cache remote folder n s) (ordered : s.InOrder cache)
    {w : World} (named : (Move.others w).WellNamed cache s) :
    (s.move (.others w)).InOrder cache := by
  obtain ⟨operations, each, done⟩ := named
  have changed : (w.cacheAt cache).InStep := done ▸ ordered.inStep.after each
  cases phase with
  | claims count | asks count | awaits count => exact ⟨changed, ordered.named, ordered.distinct⟩
  | @gives _ _ _ a count last =>
    cases a with
    | error | ok => exact ⟨changed, ordered.named, ordered.distinct⟩
  | ended few ends => exact ordered

/-- What happens by proper names leaves the cache of an errand in step. -/
theorem Phase.inOrder (phase : Phase cache remote folder n s) (ordered : s.InOrder cache)
    {m : Move} (named : m.WellNamed cache s) : (s.move m).InOrder cache := by
  cases m with
  | turn => exact phase.inOrder_turn ordered
  | answer a => exact phase.inOrder_answer ordered named
  | others w => exact phase.inOrder_others ordered named

/-! ### Runs of an errand -/

/-- By induction on the moves: each chance brings an errand nearer to its end, and no move takes it
further away. -/
theorem Phase.play (phase : Phase cache remote folder n s) (moves : List Move) :
    ∃ k, Phase cache remote folder k (s.play moves) ∧ k ≤ n - s.chances moves := by
  induction moves generalizing s n with
  | nil => exact ⟨n, phase, Nat.le_refl _⟩
  | cons m rest ih =>
    obtain ⟨k, next, fewer, -⟩ := phase.move m
    obtain ⟨j, last, fewest⟩ := ih next
    refine ⟨j, last, ?_⟩
    rw [chances]
    omega

/-- An errand that has ended stays as it is. -/
theorem play_of_done {result : Except Failure (List Entry)} (done : s.script = .done result)
    (moves : List Move) : s.play moves = s := by
  induction moves with
  | nil => rfl
  | cons m rest ih =>
    have still : s.move m = s := by simp only [Errand.move, done]
    rw [Errand.play, List.foldl_cons, still]
    exact ih

/-- An errand that ends with a failure has left all that is known as it was, move by move. -/
theorem Phase.sameAnswers (phase : Phase cache remote folder n s) {moves : List Move}
    {failure : Failure} (failed : (s.play moves).script = .done (.error failure)) {k : Nat}
    {m : Move} (here : moves[k]? = some m) (own : m.isOwn) :
    ((s.play (moves.take k)).world.cacheAt cache).SameAnswers
      ((s.play (moves.take (k + 1))).world.cacheAt cache) := by
  obtain ⟨inside, rfl⟩ := List.getElem?_eq_some_iff.mp here
  obtain ⟨_, before, -⟩ := phase.play (moves.take k)
  obtain ⟨_, -, -, keeps⟩ := before.move moves[k]
  have next : s.play (moves.take (k + 1)) = (s.play (moves.take k)).move moves[k] := by
    rw [Errand.play, List.take_succ_eq_append_getElem inside, List.foldl_append]
    rfl
  rw [next]
  refine .of_nodes ((keeps own).resolve_right ?_)
  rintro ⟨children, done⟩
  have rest : s.play moves = ((s.play (moves.take k)).move moves[k]).play (moves.drop (k + 1)) := by
    rw [← next, Errand.play, Errand.play, Errand.play, ← List.foldl_append, List.take_append_drop]
  rw [rest, play_of_done done, done] at failed
  cases failed

/-- By induction on the moves: what is well-named keeps the cache and what was listed in order. -/
theorem Phase.inOrder_play (phase : Phase cache remote folder n s) (ordered : s.InOrder cache)
    {moves : List Move}
    (named : ∀ (k : Nat) (m : Move), moves[k]? = some m → m.WellNamed cache (s.play (moves.take k))) :
    (s.play moves).InOrder cache := by
  induction moves generalizing s n with
  | nil => exact ordered
  | cons m rest ih =>
    obtain ⟨k, next, -, -⟩ := phase.move m
    exact ih next (phase.inOrder ordered (named 0 m rfl)) fun k m' here => named (k + 1) m' here

/-- At no time has an errand called the service more than three times, and only for its folder. -/
theorem Phase.asked_eq (phase : Phase cache remote folder n s) :
    ∃ calls ≤ 3, s.asked = List.replicate calls folder := by
  cases phase with
  | claims count | asks count | gives count | ended count => exact ⟨_, by omega, rfl⟩
  | awaits count => exact ⟨_, by omega, rfl⟩

/-- An errand with no chances left before it has ended. -/
theorem Phase.exists_done (phase : Phase cache remote folder n s) (none : n = 0) :
    ∃ result, s.script = .done result := by
  cases phase with
  | claims | asks | awaits | gives => omega
  | ended => exact ⟨_, rfl⟩

/-- Every call was answered when an errand has ended, and the last answer tells how. -/
theorem Phase.ends {result : Except Failure (List Entry)} (phase : Phase cache remote folder n s)
    (done : s.script = .done result) : s.answers.length = s.asked.length ∧
      Ends (s.world.cacheAt cache) folder s.answers.getLast? result := by
  cases phase with
  | claims | asks | awaits => cases done
  | @gives _ _ _ a =>
    cases a with
    | error | ok => cases done
  | ended few ends =>
    cases done
    exact ⟨List.length_replicate.symm, ends⟩

/-- An errand waits for nothing but the answer to a call or another listing of its folder. -/
theorem Phase.of_waits (phase : Phase cache remote folder n s) (normal : IsNormal folder)
    (waits : s.waits) : s.pending ∨ ((s.world.cacheAt cache).flight? folder).isSome := by
  cases phase with
  | claims =>
    refine Or.inr (World.isMarked_of_claim?_eq_none normal ?_)
    simpa [Errand.waits] using waits
  | awaits => exact Or.inl rfl
  | @gives _ _ _ a =>
    cases a with
    | error | ok => cases waits
  | asks | ended => cases waits

/-- Whatever others do with the world and whatever the service answers, an errand for the children
of a folder lists that folder at most three times, waits for nothing but the answer to such a call
or another listing of the folder, and ends after twelve chances to go on. If it ends with a failure,
this is the last answer that it got, it has changed nothing that the cache tells, and the folder is
not claimed. Else it ends with the children that the cache knows at that moment, in strictly
ascending order of the names that the cache has for them, or with its last listing, in ascending
order by name. If all of this goes by proper names, on a cache that was in step, then the order of
the children by their own names is strict. -/
theorem ensureChildren_ends (w : World) (cache remote : Nat) (folder : String)
    (moves : List Move) :
    let s := (start w cache remote folder).play moves
    let c := s.world.cacheAt cache
    (∃ n ≤ 3, s.asked = List.replicate n (normalize folder)) ∧
    (s.waits → s.pending ∨ (c.flight? (normalize folder)).isSome) ∧
    (12 ≤ (start w cache remote folder).chances moves → ∃ result, s.script = .done result) ∧
    (∀ failure, s.script = .done (.error failure) →
      s.answers.length = s.asked.length ∧ s.answers.getLast? = some (.error failure) ∧
      c.flight? (normalize folder) = none ∧
      ∀ (k : Nat) (m : Move), moves[k]? = some m → m.isOwn →
        (((start w cache remote folder).play (moves.take k)).world.cacheAt cache).SameAnswers
          (((start w cache remote folder).play (moves.take (k + 1))).world.cacheAt cache)) ∧
    ((w.cacheAt cache).InStep → (∀ (k : Nat) (m : Move), moves[k]? = some m →
        m.WellNamed cache ((start w cache remote folder).play (moves.take k))) →
      c.InStep ∧ ∀ entries, s.script = .done (.ok entries) →
        (entries.map Entry.name).Pairwise (· < ·)) ∧
    ∀ entries, s.script = .done (.ok entries) →
      (c.children? folder = some entries ∧ (c.InStep → (entries.map Entry.name).Pairwise (· < ·)) ∧
        ∃ names : List String, names.Pairwise (· < ·) ∧
          List.Forall₂ (fun name e => c.entryAt? (join (normalize folder) name) = some e)
            names entries) ∨
      ∃ listed, s.answers.length = s.asked.length ∧ s.answers.getLast? = some (.ok listed) ∧
        entries.Perm listed ∧ entries.Pairwise fun a b => a.name ≤ b.name := by
  intro s c
  have begun := phase_start w cache remote folder
  obtain ⟨k, phase, left⟩ := begun.play moves
  refine ⟨phase.asked_eq, phase.of_waits (isNormal_normalize folder), fun enough =>
    phase.exists_done (by omega), fun failure done => ?_, fun inStep named => ?_,
    fun entries done => ?_⟩
  · obtain ⟨answered, ends⟩ := phase.ends done
    cases ends with
    | failed last free =>
      rw [normalize_normalize] at free
      exact ⟨answered, last, free, fun k m here own => begun.sameAnswers done here own⟩
  · have ordered := begun.inOrder_play ⟨inStep, nofun, nofun⟩ named
    refine ⟨ordered.inStep, fun entries done => ?_⟩
    cases (phase.ends done).2 with
    | known known =>
      rw [Cache.children?, normalize_normalize] at known
      exact ordered.inStep.pairwise_children? known
    | listed last =>
      exact List.pairwise_map.mpr
        (Task.pairwise_sortByName (ordered.distinct (List.mem_of_getLast? last)))
  · obtain ⟨answered, ends⟩ := phase.ends done
    cases ends with
    | known known =>
      have known : c.children? folder = some entries := by
        rwa [Cache.children?, normalize_normalize] at known
      exact Or.inl ⟨known, fun inStep => inStep.pairwise_children? known,
        Cache.exists_names_of_children? known⟩
    | @listed listed last =>
      exact Or.inr ⟨listed, answered, last, List.mergeSort_perm ..,
        Cache.pairwise_mergeSort_name listed⟩

private def touched : World :=
  { remotes := [], caches := [((Cache.empty.beginFetch "/d").2).touch "/d"] }

private def overtaken : List Move :=
  [.turn, .turn, .others touched,
    .answer (.ok [⟨"b", .file, 2, 0, none⟩, ⟨"a", .file, 1, 0, none⟩]), .turn]

example : ((start { remotes := [] } 0 0 "d/").play (List.replicate 4 overtaken).flatten).asked =
    ["/d", "/d", "/d"] := by
  decide +kernel

end Errand

end StoreShell
