import Mathlib.Order.Basic
import StoreShell.Stream

/-! # Stream functions

What is known of a stream at some point is a `Flow`: the bytes so far, and whether that is all. A
stream may be endless, so a stream function is given by what it has already put out when its input is
known so far: more input gives no less output, and whatever it gives for one input are pieces of one
stream. Functions of this kind compose, and what a composition gives in full is unique.

`Impulse` is what a sequential processor of streams does next. It takes its input byte by byte, and
nothing that it does depends on when these bytes come. `StreamFunction.ofProcessor` is the function
that it computes.
-/

namespace StoreShell

/-- What is known of a stream: the bytes so far, and whether there are no more. -/
structure Flow where
  bytes : Bytes
  closed : Bool
  deriving DecidableEq, Repr

/-- One flow is below another one if the other one may follow it. -/
instance : PartialOrder Flow where
  le f g := f.bytes <+: g.bytes ∧ (f.closed → g = f)
  le_refl f := ⟨List.prefix_rfl, fun _ => rfl⟩
  le_trans f g h := by
    rintro ⟨fg, closed⟩ ⟨gh, closed'⟩
    refine ⟨fg.trans gh, fun ends => ?_⟩
    obtain rfl := closed ends
    exact closed' ends
  le_antisymm f g := by
    rintro ⟨fg, closed⟩ ⟨gf, closed'⟩
    cases ends : f.closed with
    | true => exact (closed ends).symm
    | false =>
      cases ends' : g.closed with
      | true => exact closed' ends'
      | false =>
        have same := fg.eq_of_length_le gf.length_le
        obtain ⟨bytes, closed⟩ := f
        obtain ⟨bytes', closed'⟩ := g
        rw [Flow.mk.injEq]
        exact ⟨same, ends.trans ends'.symm⟩

namespace Flow

/-- Nothing follows the end of a stream. -/
theorem eq_of_closed_le {f g : Flow} (closed : f.closed) (below : f ≤ g) : g = f := below.2 closed

/-- An open flow is below whatever continues its bytes. -/
theorem open_le {bytes : Bytes} {g : Flow} (continued : bytes <+: g.bytes) : ⟨bytes, false⟩ ≤ g :=
  ⟨continued, fun closed => by cases closed⟩

end Flow

/-- A function of streams, by what it gives when so much of its input is known. -/
structure StreamFunction where
  gives : Flow → Flow → Prop
  /-- Nothing is given from the beginning. -/
  nil {f : Flow} : gives f ⟨[], false⟩
  /-- More input gives no less output. -/
  mono {f f' g : Flow} : f ≤ f' → gives f g → gives f' g
  /-- What is given so far was given before. -/
  lower {f g g' : Flow} : gives f g → g' ≤ g → gives f g'
  /-- Whatever is given is part of one stream. -/
  directed {f g g' : Flow} : gives f g → gives f g' → ∃ h, gives f h ∧ g ≤ h ∧ g' ≤ h

namespace StreamFunction

variable {F G : StreamFunction} {f g g' : Flow} {fs : List StreamFunction}

/-- A stream that is given in full is the only one. -/
theorem eq_of_closed (first : F.gives f g) (second : F.gives f g') (closed : g.closed)
    (closed' : g'.closed) : g = g' := by
  obtain ⟨h, -, above, above'⟩ := F.directed first second
  exact (above.2 closed).symm.trans (above'.2 closed')

def id : StreamFunction where
  gives f g := g ≤ f
  nil := Flow.open_le (List.nil_prefix ..)
  mono more given := given.trans more
  lower given below := below.trans given
  directed {f _ _} given given' := ⟨f, le_rfl, given, given'⟩

def andThen (F G : StreamFunction) : StreamFunction where
  gives f g := ∃ h, F.gives f h ∧ G.gives h g
  nil := ⟨_, F.nil, G.nil⟩
  mono more := fun ⟨h, first, second⟩ => ⟨h, F.mono more first, second⟩
  lower := fun ⟨h, first, second⟩ below => ⟨h, first, G.lower second below⟩
  directed := by
    rintro f g g' ⟨h, first, second⟩ ⟨h', first', second'⟩
    obtain ⟨top, first, above, above'⟩ := F.directed first first'
    obtain ⟨i, second, below, below'⟩ := G.directed (G.mono above second) (G.mono above' second')
    exact ⟨i, ⟨top, first, second⟩, below, below'⟩

def compose (fs : List StreamFunction) : StreamFunction := fs.foldl andThen id

@[simp] theorem compose_nil : compose [] = id := rfl

/-- The last function of a row comes last. -/
@[simp] theorem compose_append_singleton : compose (fs ++ [F]) = (compose fs).andThen F := by
  simp [compose]

/-- The first functions, and one more. -/
theorem compose_take_succ {i : Nat} (here : fs[i]? = some F) :
    compose (fs.take (i + 1)) = (compose (fs.take i)).andThen F := by
  rw [List.take_add_one, here, Option.toList_some, compose_append_singleton]

end StreamFunction

/-! ### Processors -/

/-- What a sequential processor of streams does next, `τ` being what it is afterwards. -/
inductive Impulse (τ : Type) where
  /-- It writes a byte. -/
  | put (dest : Output) (byte : UInt8) (next : τ)
  /-- It takes the next byte of its input, or the end of it. -/
  | get (got : UInt8 → τ) (ended : τ)
  /-- It goes on. -/
  | skip (next : τ)
  /-- It ends. -/
  | stop

/-- Whether a processor ends. -/
def Impulse.isStop {τ : Type} : Impulse τ → Bool
  | .stop => true
  | _ => false

/-- How a processor comes from one state to another one, from what is there of its input to what is
left of it, and what it writes meanwhile. -/
inductive Runs {τ : Type} (impulse : τ → Impulse τ) (closed : Bool) :
    τ → Bytes → List (Output × UInt8) → τ → Bytes → Prop where
  | refl {x bytes} : Runs impulse closed x bytes [] x bytes
  | put {x dest byte x' bytes written y rest} : impulse x = .put dest byte x' →
      Runs impulse closed x' bytes written y rest →
      Runs impulse closed x bytes ((dest, byte) :: written) y rest
  | get {x got ended byte bytes written y rest} : impulse x = .get got ended →
      Runs impulse closed (got byte) bytes written y rest →
      Runs impulse closed x (byte :: bytes) written y rest
  | ended {x got ended written y rest} : closed → impulse x = .get got ended →
      Runs impulse closed ended [] written y rest → Runs impulse closed x [] written y rest
  | skip {x x' bytes written y rest} : impulse x = .skip x' →
      Runs impulse closed x' bytes written y rest → Runs impulse closed x bytes written y rest

namespace Runs

variable {τ : Type} {impulse : τ → Impulse τ} {closed : Bool} {x y z : τ} {bytes rest left : Bytes}
  {written more : List (Output × UInt8)}

theorem trans (first : Runs impulse closed x bytes written y rest)
    (second : Runs impulse closed y rest more z left) :
    Runs impulse closed x bytes (written ++ more) z left := by
  induction first with
  | refl => exact second
  | put step _ ih => exact .put step (ih second)
  | get step _ ih => exact .get step (ih second)
  | ended closed step _ ih => exact .ended closed step (ih second)
  | skip step _ ih => exact .skip step (ih second)

/-- Input that is still to come changes nothing of what was done before. -/
theorem supply (runs : Runs impulse false x bytes written y rest) (closed : Bool) (further : Bytes) :
    Runs impulse closed x (bytes ++ further) written y (rest ++ further) := by
  induction runs with
  | refl => exact .refl
  | put step _ ih => exact .put step ih
  | get step _ ih => exact .get step ih
  | ended closed => cases closed
  | skip step _ ih => exact .skip step ih

/-- Nothing comes after the end. -/
theorem of_stop (stops : impulse x = .stop) (runs : Runs impulse closed x bytes written y rest) :
    written = [] ∧ y = x ∧ rest = bytes := by
  cases runs with
  | refl => exact ⟨rfl, rfl, rfl⟩
  | put step | get step | ended _ step | skip step =>
    rw [stops] at step
    cases step

/-- Of two runs from the same state with the same input, one goes on where the other one stands. -/
theorem comparable (first : Runs impulse closed x bytes written y rest)
    (second : Runs impulse closed x bytes more z left) :
    (∃ tail, more = written ++ tail ∧ Runs impulse closed y rest tail z left) ∨
      ∃ tail, written = more ++ tail ∧ Runs impulse closed z left tail y rest := by
  induction first generalizing more z left with
  | refl => exact Or.inl ⟨more, rfl, second⟩
  | @put x dest byte x' bytes written y rest step further ih =>
    cases second with
    | refl => exact Or.inr ⟨_, rfl, .put step further⟩
    | put step' further' =>
      rw [step] at step'
      cases step'
      exact (ih further').imp (fun ⟨tail, same, runs⟩ => ⟨tail, by rw [same, List.cons_append], runs⟩)
        fun ⟨tail, same, runs⟩ => ⟨tail, by rw [same, List.cons_append], runs⟩
    | get step' | ended _ step' | skip step' =>
      rw [step] at step'
      cases step'
  | @get x got ended byte bytes written y rest step further ih =>
    cases second with
    | refl => exact Or.inr ⟨_, rfl, .get step further⟩
    | get step' further' =>
      rw [step] at step'
      cases step'
      exact ih further'
    | put step' | skip step' =>
      rw [step] at step'
      cases step'
  | @ended x got ended written y rest closes step further ih =>
    cases second with
    | refl => exact Or.inr ⟨_, rfl, .ended closes step further⟩
    | ended _ step' further' =>
      rw [step] at step'
      cases step'
      exact ih further'
    | put step' | skip step' =>
      rw [step] at step'
      cases step'
  | @skip x x' bytes written y rest step further ih =>
    cases second with
    | refl => exact Or.inr ⟨_, rfl, .skip step further⟩
    | skip step' further' =>
      rw [step] at step'
      cases step'
      exact ih further'
    | put step' | get step' | ended _ step' =>
      rw [step] at step'
      cases step'

end Runs

/-- The bytes that were written to some of the outputs. -/
def through (which : Output → Bool) (written : List (Output × UInt8)) : Bytes :=
  (written.filter fun (dest, _) => which dest).map Prod.snd

@[simp] theorem through_nil (which : Output → Bool) : through which [] = [] := rfl

/-- What was written to some outputs can be told piece by piece. -/
@[simp] theorem through_append (which : Output → Bool) (written more : List (Output × UInt8)) :
    through which (written ++ more) = through which written ++ through which more := by
  simp [through]

/-- Bytes written to one output. -/
@[simp] theorem through_map (which : Output → Bool) (dest : Output) (bytes : Bytes) :
    through which (bytes.map (dest, ·)) = if which dest then bytes else [] := by
  rw [through, List.filter_map, List.map_map]
  cases chosen : which dest <;> simp [Function.comp_def, chosen]

namespace StreamFunction

variable {τ : Type} {impulse : τ → Impulse τ}

/-- A run that goes further gives no less. -/
theorem flow_le {closed : Bool} {y z : τ} {rest left : Bytes}
    {tail : List (Output × UInt8)} (further : Runs impulse closed y rest tail z left)
    (which : Output → Bool) (written : List (Output × UInt8)) :
    (⟨through which written, (impulse y).isStop⟩ : Flow) ≤
      ⟨through which (written ++ tail), (impulse z).isStop⟩ := by
  refine ⟨by simp, fun stops => ?_⟩
  have stops : impulse y = .stop := by
    cases state : impulse y <;> rw [state] at stops <;> first | rfl | cases stops
  obtain ⟨rfl, rfl, -⟩ := further.of_stop stops
  rw [List.append_nil]

/-- The function that a processor computes, as far as some of its outputs tell. -/
def ofProcessor (impulse : τ → Impulse τ) (which : Output → Bool) (start : τ) : StreamFunction where
  gives f g := ∃ written y rest, Runs impulse f.closed start f.bytes written y rest ∧
    g ≤ ⟨through which written, (impulse y).isStop⟩
  nil := ⟨[], start, _, .refl, Flow.open_le (List.nil_prefix ..)⟩
  mono := by
    rintro f f' g more ⟨written, y, rest, runs, below⟩
    cases closes : f.closed with
    | true =>
      rw [Flow.eq_of_closed_le closes more]
      exact ⟨written, y, rest, runs, below⟩
    | false =>
      obtain ⟨further, same⟩ := more.1
      rw [closes] at runs
      exact ⟨written, y, rest ++ further, same ▸ runs.supply f'.closed further, below⟩
  lower := fun ⟨written, y, rest, runs, below⟩ lower =>
    ⟨written, y, rest, runs, lower.trans below⟩
  directed := by
    rintro f g g' ⟨written, y, rest, runs, below⟩ ⟨written', y', rest', runs', below'⟩
    rcases runs.comparable runs' with ⟨tail, rfl, further⟩ | ⟨tail, rfl, further⟩
    · exact ⟨_, ⟨_, _, _, runs', le_rfl⟩, below.trans (flow_le further which written), below'⟩
    · exact ⟨_, ⟨_, _, _, runs, le_rfl⟩, below, below'.trans (flow_le further which written')⟩

end StreamFunction

end StoreShell
