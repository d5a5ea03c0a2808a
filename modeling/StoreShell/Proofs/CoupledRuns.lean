import StoreShell.Proofs.CoupledCommands

/-! # Coupled scripts that run alone

Two scripts that are alike, run over matched outlets, both end or both do not, and they end with one
result over matched outlets. The outlets may differ in what the error stream of the caller received,
unless the comparison is strict; then every error text has to go to that stream.
-/

namespace Option.Rel

variable {α β α' β' : Type} {r : α → β → Prop} {a : Option α} {b : Option β}

theorem imp {r' : α → β → Prop} (related : Option.Rel r a b) (imp : ∀ x y, r x y → r' x y) :
    Option.Rel r' a b := by
  cases related with
  | none => exact .none
  | some related => exact .some (imp _ _ related)

theorem flip {r' : β → α → Prop} (related : Option.Rel r a b) (imp : ∀ x y, r x y → r' y x) :
    Option.Rel r' b a := by
  cases related with
  | none => exact .none
  | some related => exact .some (imp _ _ related)

theorem map {r' : α' → β' → Prop} {f : α → α'} {g : β → β'} (related : Option.Rel r a b)
    (imp : ∀ x y, r x y → r' (f x) (g y)) : Option.Rel r' (a.map f) (b.map g) := by
  cases related with
  | none => exact .none
  | some related => exact .some (imp _ _ related)

theorem isSome_eq (related : Option.Rel r a b) : a.isSome = b.isSome := by
  cases related <;> rfl

theorem any_eq {p : α → Bool} {q : β → Bool} (related : Option.Rel r a b)
    (imp : ∀ x y, r x y → p x = q y) : a.any p = b.any q := by
  cases related with
  | none => rfl
  | some related => exact imp _ _ related

end Option.Rel

namespace StoreShell

/-- Outlets that differ at most in what the error stream of the caller received, and not even in
that in a strict comparison. -/
structure MatchedOutlets (strict : Bool) (o o' : Outlets) : Prop where
  out : o.callers.out = o'.callers.out
  name : o.callers.err.name = o'.callers.err.name
  refuses : o.callers.err.refuses = o'.callers.err.refuses
  saved : o.saved = o'.saved
  one : strict → o = o'

/-- Error output goes to the caller, unless the comparison is strict. -/
def OpenErr (strict : Bool) (sinks : PerOutput Sink) : Prop := ¬ strict → sinks.err = .caller .err

variable {strict : Bool} {cache remote : Nat} {α : Type}

namespace MatchedOutlets

variable {o o' : Outlets}

theorem symm (matched : MatchedOutlets strict o o') : MatchedOutlets strict o' o :=
  ⟨matched.out.symm, matched.name.symm, matched.refuses.symm, matched.saved.symm,
    fun equal => (matched.one equal).symm⟩

theorem flush (matched : MatchedOutlets strict o o') (sink : Sink) : o.flush sink = o'.flush sink := by
  cases sink with
  | discard | saved _ | pipe => rfl
  | caller which =>
    cases which with
    | out => simp only [Outlets.flush, PerOutput.get, matched.out]
    | err =>
      simp only [Outlets.flush, PerOutput.get, CallerStream.flush, matched.name, matched.refuses]

theorem forgetSaved (matched : MatchedOutlets strict o o') :
    MatchedOutlets strict { o with saved := ⟨{}, {}⟩ } { o' with saved := ⟨{}, {}⟩ } :=
  ⟨matched.out, matched.name, matched.refuses, rfl, fun equal => by rw [matched.one equal]⟩

/-- The error stream of the caller takes any two texts, or refuses both. -/
theorem write_err (matched : MatchedOutlets strict o o') {bytes bytes' : Bytes}
    (one : strict → bytes = bytes') :
    (o.write (.caller .err) bytes).1 = (o'.write (.caller .err) bytes').1 ∧
      MatchedOutlets strict (o.write (.caller .err) bytes).2 (o'.write (.caller .err) bytes').2 := by
  have together : strict → o.write (.caller .err) bytes = o'.write (.caller .err) bytes' :=
    fun equal => by rw [matched.one equal, one equal]
  have result : (o.callers.err.write bytes).1 = (o'.callers.err.write bytes').1 ∧
      (o.callers.err.write bytes).2.name = (o'.callers.err.write bytes').2.name ∧
      (o.callers.err.write bytes).2.refuses = (o'.callers.err.write bytes').2.refuses := by
    have refuses := matched.refuses
    simp only [CallerStream.write, matched.name]
    cases refusal : o.callers.err.refuses <;> rw [refusal] at refuses <;>
      simp only [← refuses, refusal, matched.name, and_self]
  exact ⟨result.1, matched.out, result.2.1, result.2.2, matched.saved,
    fun equal => congrArg Prod.snd (together equal)⟩

/-- The same bytes are written with the same result. -/
theorem write_same (matched : MatchedOutlets strict o o') (sink : Sink) (bytes : Bytes) :
    (o.write sink bytes).1 = (o'.write sink bytes).1 ∧
      MatchedOutlets strict (o.write sink bytes).2 (o'.write sink bytes).2 := by
  have together : strict → (o.write sink bytes).2 = (o'.write sink bytes).2 :=
    fun equal => by rw [matched.one equal]
  cases sink with
  | discard | pipe => exact ⟨rfl, matched⟩
  | saved which =>
    refine ⟨rfl, matched.out, matched.name, matched.refuses, ?_, together⟩
    simp only [Outlets.write, matched.saved]
  | caller which =>
    cases which with
    | out =>
      refine ⟨?_, ?_, matched.name, matched.refuses, matched.saved, together⟩
      · simp only [Outlets.write, PerOutput.get, matched.out]
      · simp only [Outlets.write, PerOutput.get, PerOutput.set, matched.out]
    | err => exact matched.write_err fun _ => rfl

/-- Matched bytes are written with the same result. -/
theorem write (matched : MatchedOutlets strict o o') {sinks : PerOutput Sink}
    (errs : OpenErr strict sinks) {dest : Output} {bytes bytes' : Bytes}
    (same : MatchedBytes strict dest bytes bytes') :
    (o.write (sinks.get dest) bytes).1 = (o'.write (sinks.get dest) bytes').1 ∧
      MatchedOutlets strict (o.write (sinks.get dest) bytes).2
        (o'.write (sinks.get dest) bytes').2 := by
  rcases same with rfl | ⟨loose, rfl, -, -⟩
  · exact matched.write_same _ _
  · rw [show sinks.get .err = .caller .err from errs loose]
    exact matched.write_err fun equal => absurd equal loose

end MatchedOutlets

/-- Surroundings with matched streams. -/
structure MatchedStreams (strict : Bool) (s s' : Scene) : Prop where
  outlets : MatchedOutlets strict s.outlets s'.outlets
  input : s.input = s'.input
  sinks : s.sinks = s'.sinks
  errs : OpenErr strict s.sinks

namespace MatchedStreams

variable {s s' : Scene}

theorem withWorlds (matched : MatchedStreams strict s s') (w v : World) :
    MatchedStreams strict { s with world := w } { s' with world := v } :=
  ⟨matched.outlets, matched.input, matched.sinks, matched.errs⟩

theorem withInput (matched : MatchedStreams strict s s') (input : Bytes) :
    MatchedStreams strict { s with input } { s' with input } :=
  ⟨matched.outlets, rfl, matched.sinks, matched.errs⟩

theorem flush (matched : MatchedStreams strict s s') (dest : Output) :
    s.flush dest = s'.flush dest := by
  rw [Scene.flush, Scene.flush, matched.sinks, matched.outlets.flush]

/-- Matching bytes are written with one result, and the streams match afterwards. -/
theorem write (matched : MatchedStreams strict s s') {dest : Output} {bytes bytes' : Bytes}
    (same : MatchedBytes strict dest bytes bytes') :
    (s.write dest bytes).1 = (s'.write dest bytes').1 ∧
      MatchedStreams strict (s.write dest bytes).2 (s'.write dest bytes').2 := by
  have nothing : bytes.isEmpty = bytes'.isEmpty := by
    rcases same with rfl | ⟨-, -, filled, filled'⟩
    · rfl
    · rw [List.isEmpty_eq_false_iff.mpr filled, List.isEmpty_eq_false_iff.mpr filled']
  obtain ⟨result, outlets⟩ := matched.outlets.write matched.errs same
  rw [Scene.write, Scene.write, ← nothing, ← matched.sinks]
  split
  · exact ⟨rfl, matched⟩
  · exact ⟨result, outlets, matched.input, rfl, matched.errs⟩

/-- Both streams hold the same input, so copying ends alike. -/
theorem copy (matched : MatchedStreams strict s s') (copying : Copying) :
    (s.copy copying).1 = (s'.copy copying).1 ∧
      MatchedStreams strict (s.copy copying).2 (s'.copy copying).2 := by
  have same : MatchedBytes strict .out (copying.held ++ s.input) (copying.held ++ s.input) :=
    Or.inl rfl
  obtain ⟨result, streams⟩ := (matched.withInput []).write same
  simp only [Scene.copy, ← matched.input]
  refine ⟨?_, streams⟩
  rw [result, streams.flush]

/-- Both streams hold the same input, so the same bytes are taken from it. -/
theorem collect (matched : MatchedStreams strict s s') (room : Option Nat) (sofar : Chunks) :
    (s.collect room sofar).1 = (s'.collect room sofar).1 ∧
      MatchedStreams strict (s.collect room sofar).2 (s'.collect room sofar).2 := by
  cases room <;> simp only [Scene.collect, ← matched.input, true_and] <;>
    exact matched.withInput _

end MatchedStreams

/-- Whether two runs end with one result. -/
def SameEnd {σ : Type} (rel : σ → σ → Prop) (x y : α × σ) : Prop := x.1 = y.1 ∧ rel x.2 y.2

/-- Surroundings in which both runs of a script are at the same point. -/
structure MatchedScenes (strict : Bool) (cache remote : Nat) (s s' : Scene) : Prop
    extends MatchedStreams strict s s' where
  worlds : Matched strict cache remote s.world s'.world

/-- Scripts that are alike run alike. -/
theorem Alike.run? {s t : Script α} {w v : World} (alike : Alike strict cache remote s t w v)
    {x y : Scene} (here : x.world = w) (there : y.world = v) (streams : MatchedStreams strict x y) :
    Option.Rel (SameEnd (MatchedScenes strict cache remote)) (s.run? x) (t.run? y) := by
  induction alike generalizing x y with
  | left step _ ih =>
    subst here
    rw [Script.run?_of_silent? step]
    exact ih rfl there (streams.withWorlds _ _)
  | right step _ ih =>
    subst there
    rw [Script.run?_of_silent? step]
    exact ih here rfl (streams.withWorlds _ _)
  | done matched =>
    subst here there
    exact .some ⟨rfl, streams, matched⟩
  | write matched same _ ih =>
    subst here there
    obtain ⟨result, after⟩ := streams.write same
    simp only [Script.run?, result]
    exact ih _ _ _ matched (by simp) (by simp) after
  | flush matched _ ih =>
    simp only [Script.run?, streams.flush]
    exact ih _ _ _ matched here there streams
  | @copy copying _ _ _ _ matched _ ih =>
    subst here there
    obtain ⟨result, after⟩ := streams.copy copying
    simp only [Script.run?, result]
    exact ih _ _ _ matched (by simp) (by simp) after
  | @collect room sofar _ _ _ _ matched _ ih =>
    subst here there
    obtain ⟨result, after⟩ := streams.collect room sofar
    simp only [Script.run?, result]
    exact ih _ _ _ matched (by simp) (by simp) after
  | saved matched _ ih =>
    simp only [Script.run?, streams.outlets.saved]
    exact ih _ _ _ matched here there streams
  | release matched _ ih => exact ih _ _ matched here there streams

end StoreShell
