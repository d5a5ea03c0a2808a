import StoreShell.Proofs.AgreeingExpansion

/-! # Coupled scripts

Two runs of commands are compared stream operation by stream operation: between two of them each run
may take any number of silent steps, and whenever both stand at a stream operation it is the same
one and the worlds are `Matched`. Matched worlds are twins; in a strict comparison they are one
world. Error texts may differ unless the comparison is strict. `Coupled` scripts do so from all
matched worlds, and coupling is put together from pieces as scripts are.
-/

namespace StoreShell

open StoreShell.Path

/-- Worlds that are compared at a stream operation. -/
structure Matched (strict : Bool) (cache remote : Nat) (w v : World) : Prop where
  twins : Twins cache remote (fun c => c) w v
  one : strict → w = v

/-- Bytes that are written to an output in the two runs. -/
def MatchedBytes (strict : Bool) (dest : Output) (bytes bytes' : Bytes) : Prop :=
  bytes = bytes' ∨ (¬ strict ∧ dest = .err ∧ bytes ≠ [] ∧ bytes' ≠ [])

variable {strict : Bool} {cache remote : Nat} {α β : Type}

/-- Whether two scripts take the same stream operations from two worlds on. -/
inductive Alike (strict : Bool) (cache remote : Nat) :
    Script α → Script α → World → World → Prop where
  | left {s s' t w w' v} : s.silent? w = some (s', w') → Alike strict cache remote s' t w' v →
      Alike strict cache remote s t w v
  | right {s t t' w v v'} : t.silent? v = some (t', v') → Alike strict cache remote s t' w v' →
      Alike strict cache remote s t w v
  | done {a w v} : Matched strict cache remote w v →
      Alike strict cache remote (.done a) (.done a) w v
  | write {dest bytes bytes' next next' w v} : Matched strict cache remote w v →
      MatchedBytes strict dest bytes bytes' →
      (∀ r w v, Matched strict cache remote w v →
        Alike strict cache remote (next r) (next' r) w v) →
      Alike strict cache remote (.write dest bytes next) (.write dest bytes' next') w v
  | flush {dest next next' w v} : Matched strict cache remote w v →
      (∀ r w v, Matched strict cache remote w v →
        Alike strict cache remote (next r) (next' r) w v) →
      Alike strict cache remote (.flush dest next) (.flush dest next') w v
  | copy {copying next next' w v} : Matched strict cache remote w v →
      (∀ r w v, Matched strict cache remote w v →
        Alike strict cache remote (next r) (next' r) w v) →
      Alike strict cache remote (.copy copying next) (.copy copying next') w v
  | collect {room sofar next next' w v} : Matched strict cache remote w v →
      (∀ r w v, Matched strict cache remote w v →
        Alike strict cache remote (next r) (next' r) w v) →
      Alike strict cache remote (.collect room sofar next) (.collect room sofar next') w v
  | saved {which next next' w v} : Matched strict cache remote w v →
      (∀ r w v, Matched strict cache remote w v →
        Alike strict cache remote (next r) (next' r) w v) →
      Alike strict cache remote (.saved which next) (.saved which next') w v
  | release {next next' w v} : Matched strict cache remote w v →
      (∀ w v, Matched strict cache remote w v → Alike strict cache remote next next' w v) →
      Alike strict cache remote (.release next) (.release next') w v

/-- Scripts that take the same stream operations from all matched worlds on. -/
def Coupled (strict : Bool) (cache remote : Nat) (s t : Script α) : Prop :=
  ∀ w v, Matched strict cache remote w v → Alike strict cache remote s t w v

theorem coupled_done (a : α) : Coupled strict cache remote (.done a) (.done a) :=
  fun _ _ matched => .done matched

theorem Matched.symm {w v : World} (matched : Matched strict cache remote w v) :
    Matched strict cache remote v w :=
  ⟨⟨matched.twins.right, matched.twins.left, matched.twins.cwd.symm, matched.twins.settings.symm,
    matched.twins.store.symm⟩, fun equal => (matched.one equal).symm⟩

theorem MatchedBytes.symm {dest : Output} {bytes bytes' : Bytes}
    (matched : MatchedBytes strict dest bytes bytes') : MatchedBytes strict dest bytes' bytes := by
  rcases matched with same | ⟨loose, err, filled, filled'⟩
  · exact Or.inl same.symm
  · exact Or.inr ⟨loose, err, filled', filled⟩

theorem Alike.symm {s t : Script α} {w v : World} (alike : Alike strict cache remote s t w v) :
    Alike strict cache remote t s v w := by
  induction alike with
  | left step _ ih => exact .right step ih
  | right step _ ih => exact .left step ih
  | done matched => exact .done matched.symm
  | write matched bytes _ ih => exact .write matched.symm bytes.symm fun r w v m => ih r v w m.symm
  | flush matched _ ih => exact .flush matched.symm fun r w v m => ih r v w m.symm
  | copy matched _ ih => exact .copy matched.symm fun r w v m => ih r v w m.symm
  | collect matched _ ih => exact .collect matched.symm fun r w v m => ih r v w m.symm
  | saved matched _ ih => exact .saved matched.symm fun r w v m => ih r v w m.symm
  | release matched _ ih => exact .release matched.symm fun w v m => ih v w m.symm

theorem Coupled.symm {s t : Script α} (coupled : Coupled strict cache remote s t) :
    Coupled strict cache remote t s :=
  fun w v matched => (coupled v w matched.symm).symm

/-- Scripts that go on alike are alike as a whole. -/
theorem Alike.bind {s t : Script α} {w v : World} (alike : Alike strict cache remote s t w v)
    {f g : α → Script β} (next : ∀ a, Coupled strict cache remote (f a) (g a)) :
    Alike strict cache remote (s.bind f) (t.bind g) w v := by
  induction alike with
  | left step _ ih => exact .left (Script.silent?_bind step f) ih
  | right step _ ih => exact .right (Script.silent?_bind step g) ih
  | done matched => exact next _ _ _ matched
  | write matched bytes _ ih => exact .write matched bytes ih
  | flush matched _ ih => exact .flush matched ih
  | copy matched _ ih => exact .copy matched ih
  | collect matched _ ih => exact .collect matched ih
  | saved matched _ ih => exact .saved matched ih
  | release matched _ ih => exact .release matched ih

/-- Coupled scripts may be followed by scripts that are coupled for each of their results. -/
theorem Coupled.bind {s t : Script α} (coupled : Coupled strict cache remote s t)
    {f g : α → Script β} (next : ∀ a, Coupled strict cache remote (f a) (g a)) :
    Coupled strict cache remote (s.bind f) (t.bind g) :=
  fun w v matched => (coupled w v matched).bind next

/-- What a script settles to in the first run can stand in its place. -/
theorem Alike.settle_left {s : Script α} {w w' v : World} {a : α} {f : α → Script β}
    {t : Script β} (settles : s.settle? w = some (a, w'))
    (alike : Alike strict cache remote (f a) t w' v) :
    Alike strict cache remote (s.bind f) t w v := by
  refine Script.settle?_induction
    (motive := fun s w => Alike strict cache remote (s.bind f) t w v) alike ?_ settles
  intro s s' w u step ih
  exact .left (Script.silent?_bind step f) ih

/-- Silent steps of the second script may be taken first. -/
theorem Alike.settle_right {t : Script α} {w v v' : World} {a : α} {f : α → Script β}
    {s : Script β} (settles : t.settle? v = some (a, v'))
    (alike : Alike strict cache remote s (f a) w v') :
    Alike strict cache remote s (t.bind f) w v :=
  (Alike.settle_left settles alike.symm).symm

/-- A script that agrees goes on as what follows it does. -/
theorem Agree.alike {pre : World → World → Prop} {s : Script α} {post : α → World → World → Prop}
    (agree : Agree pre s post) {f g : α → Script β}
    (next : ∀ a w v, post a w v → (strict → w = v) → Alike strict cache remote (f a) (g a) w v)
    {w v : World} (before : pre w v) (one : strict → w = v) :
    Alike strict cache remote (s.bind f) (s.bind g) w v := by
  obtain ⟨a, w', v', left, right, after⟩ := agree w v before
  refine Alike.settle_left left (Alike.settle_right right (next a w' v' after fun equal => ?_))
  rw [one equal, right] at left
  exact (congrArg Prod.snd (Option.some.inj left)).symm

end StoreShell
