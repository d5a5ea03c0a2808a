import StoreShell.Children
import StoreShell.Command.Operands

/-! # Scripts that do only some of what scripts can do

Much of what holds of a script holds because of the kind of thing that it does: it uses no streams,
or it asks for nothing that changes a certain file. A script is `Confined` to what is allowed if at
each of its nodes it does something that is. What is allowed is a parameter, so one piece of work
after another is confined to it if both are, whatever it is (`Confined.bind`, `Confined.andThen`).
-/

namespace StoreShell

variable {α β : Type}

namespace Script

/-- What a script does at a node before it goes on. -/
inductive Doing where
  | ask (request : Request)
  | claim (cache : Nat) (folder : String)
  | list (listing : Listing)
  | write (dest : Output) (bytes : Bytes)
  | flush (dest : Output)
  | copy (copying : Copying)
  | collect (room : Option Nat) (sofar : Chunks)
  | saved (which : Output)
  | release
  | hang

/-- Whether a script does nothing but what is allowed. -/
inductive Confined (may : Doing → Prop) : Script α → Prop where
  | done {a} : Confined may (.done a)
  | ask {r next} : may (.ask r) → (∀ a, Confined may (next a)) → Confined may (.ask r next)
  | claim {cache folder next} : may (.claim cache folder) → (∀ a, Confined may (next a)) →
      Confined may (.claim cache folder next)
  | list {l next} : may (.list l) → (∀ a, Confined may (next a)) → Confined may (.list l next)
  | write {dest bytes next} : may (.write dest bytes) → (∀ a, Confined may (next a)) →
      Confined may (.write dest bytes next)
  | flush {dest next} : may (.flush dest) → (∀ a, Confined may (next a)) →
      Confined may (.flush dest next)
  | copy {c next} : may (.copy c) → (∀ a, Confined may (next a)) → Confined may (.copy c next)
  | collect {room sofar next} : may (.collect room sofar) → (∀ a, Confined may (next a)) →
      Confined may (.collect room sofar next)
  | saved {which next} : may (.saved which) → (∀ a, Confined may (next a)) →
      Confined may (.saved which next)
  | release {next} : may .release → Confined may next → Confined may (.release next)
  | hang : may .hang → Confined may .hang

variable {may : Doing → Prop}

/-- What is allowed to two pieces of work is all that they do one after the other. -/
theorem Confined.bind {s : Script α} {f : α → Script β} (first : s.Confined may)
    (next : ∀ a, (f a).Confined may) : (s.bind f).Confined may := by
  induction first with
  | done => exact next _
  | ask allowed _ ih => exact .ask allowed ih
  | claim allowed _ ih => exact .claim allowed ih
  | list allowed _ ih => exact .list allowed ih
  | write allowed _ ih => exact .write allowed ih
  | flush allowed _ ih => exact .flush allowed ih
  | copy allowed _ ih => exact .copy allowed ih
  | collect allowed _ ih => exact .collect allowed ih
  | saved allowed _ ih => exact .saved allowed ih
  | release allowed _ ih => exact .release allowed ih
  | hang allowed => exact .hang allowed

/-- A task that goes on unless there is a failure is confined as its parts are. -/
theorem Confined.andThen {t : Task α} {f : α → Task β} (first : t.toScript.Confined may)
    (next : ∀ a, (f a).toScript.Confined may) : (t >>= f).toScript.Confined may := by
  refine first.bind fun result => ?_
  cases result with
  | ok a => exact next a
  | error failure => exact .done

theorem Confined.attempt {t : Task α} (confined : t.toScript.Confined may) :
    (Task.attempt t).toScript.Confined may :=
  confined.bind fun _ => .done

end Script

namespace Task

variable {may : Script.Doing → Prop}

theorem confined_pure (a : α) : (pure a : Task α).toScript.Confined may := .done

theorem confined_throw (failure : Failure) : (throw failure : Task α).toScript.Confined may := .done

theorem confined_ask {r : Request} (allowed : may (.ask r)) : (ask r).toScript.Confined may :=
  .ask allowed fun _ => .done

/-- Looking an object up takes nothing but questions to the world. -/
theorem confined_stat (allowed : ∀ r, may (.ask r)) (path : String) :
    (stat path).toScript.Confined may := by
  refine (confined_ask (allowed .desk)).andThen fun desk =>
    (confined_ask (allowed _)).andThen fun known => ?_
  cases known with
  | some e => exact confined_pure e
  | none =>
    have called : ∀ remote path,
        (ofScript (.request (.stat remote path))).toScript.Confined may :=
      fun _ _ => .ask (allowed _) fun _ => .done
    exact (called _ _).andThen fun e =>
      (confined_ask (allowed _)).andThen fun _ => confined_pure e

end Task

end StoreShell
