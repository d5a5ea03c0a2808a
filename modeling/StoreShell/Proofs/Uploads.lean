import Mathlib.Data.List.Nodup
import StoreShell.Proofs.ConfinedScripts
import StoreShell.Proofs.Looking
import StoreShell.Proofs.PipeEnds
import StoreShell.Proofs.StoreChanges

/-! # Uploads

What closing the redirections of a command does to one file of a store. `World.contents?` is what
the file holds, and `Request.upload?` is what a request uploads to it. A script that follows the end
of a command `Settles` the file: whatever the world is like when the script goes on, as long as
nobody else changes the file, the uploads that it makes and the content that it leads to go with the
verdict. What is done after the end of a command that was cancelled, or that has no redirections, is
`Mute`: it asks for nothing.
-/

namespace StoreShell

open StoreShell.Path

variable {remote : Nat} {path : String}

/-! ### A file of a store -/

/-- An upload that fails leaves the store as it is; one that succeeds changes one file. -/
theorem Remote.upload_cases (r : Remote) (path : String) (content : Bytes) (append : Bool) :
    (∃ failure r', r.upload path content append = (.error failure, r') ∧ r'.store = r.store) ∨
      ∃ e r', r.upload path content append = (.ok e, r') ∧ ∀ other, r'.store.contents? other =
        if normalize path = normalize other then
          some ((if append then (r.store.contents? path).getD [] else []) ++ content)
        else r.store.contents? other := by
  cases append with
  | true =>
    rw [upload, if_pos rfl]
    rcases r.change_cases (.append path content.length)
        (Store.Edit.harmless_append path content) with failed | ⟨e, r', done, changed⟩
    · exact Or.inl failed
    · exact Or.inr ⟨e, r', changed, Store.contents?_append done⟩
  | false =>
    rw [upload, if_neg Bool.false_ne_true]
    rcases r.change_cases (.write path content.length)
        (Store.Edit.harmless_write path content) with failed | ⟨e, r', done, changed⟩
    · exact Or.inl failed
    · exact Or.inr ⟨e, r', changed, Store.contents?_write done⟩

namespace World

variable {w w' : World} {x : Option Bytes}

/-- What a file of a store holds, if there is such a store. -/
def contents? (w : World) (remote : Nat) (path : String) : Option (Option Bytes) :=
  w.remotes[remote]?.map (·.store.contents? path)

/-- Whoever only looks leaves what files hold. -/
theorem KeepsStores.contents?_eq (kept : w.KeepsStores w') (remote : Nat) (path : String) :
    w'.contents? remote path = w.contents? remote path := by
  have same := congrArg (fun stores => stores[remote]?.map (·.contents? path)) kept.stores
  simp only [List.getElem?_map, Option.map_map] at same
  exact same

/-- A file has a content, or is known to have none, only in a store that there is. -/
theorem contents?_eq_some (here : w.contents? remote path = some x) :
    remote < w.remotes.length ∧ (w.remoteAt remote).store.contents? path = x := by
  obtain ⟨r, found, rfl⟩ := Option.map_eq_some_iff.mp here
  refine ⟨(List.getElem?_eq_some_iff.mp found).1, ?_⟩
  rw [remoteAt, found]
  rfl

theorem contents?_setRemote_self (inside : remote < w.remotes.length) (r : Remote) :
    (w.setRemote remote r).contents? remote path = some (r.store.contents? path) := by
  simp [contents?, setRemote, inside]

theorem contents?_setRemote_of_ne {id : Nat} (other : id ≠ remote) (r : Remote) :
    (w.setRemote id r).contents? remote path = w.contents? remote path := by
  simp [contents?, setRemote, other]

/-- What an upload to a file does to it. -/
theorem answer_upload_cases (here : w.contents? remote path = some x) (content : Bytes)
    (append : Bool) :
    (∃ failure, (w.answer (.upload remote path content append)).1 = .error failure ∧
      (w.answer (.upload remote path content append)).2.contents? remote path = some x) ∨
    ∃ e, (w.answer (.upload remote path content append)).1 = .ok e ∧
      (w.answer (.upload remote path content append)).2.contents? remote path =
        some (some ((if append then x.getD [] else []) ++ content)) := by
  obtain ⟨inside, found⟩ := contents?_eq_some here
  rw [answer, onRemote]
  rcases (w.remoteAt remote).upload_cases path content append with
    ⟨failure, r, failed, same⟩ | ⟨e, r, done, effect⟩
  · left
    rw [failed]
    refine ⟨failure, rfl, ?_⟩
    rw [contents?_setRemote_self inside, same, found]
  · right
    rw [done]
    refine ⟨e, rfl, ?_⟩
    rw [contents?_setRemote_self inside, effect, if_pos rfl, found]

/-- An upload to another file, or to another store, leaves a file as it is. -/
theorem contents?_answer_upload_of_ne {id : Nat} {other : String}
    (apart : id ≠ remote ∨ normalize other ≠ normalize path) (content : Bytes) (append : Bool) :
    (w.answer (.upload id other content append)).2.contents? remote path =
      w.contents? remote path := by
  rw [answer, onRemote]
  by_cases same : id = remote
  · subst same
    have elsewhere := apart.resolve_left (not_not_intro rfl)
    cases here : w.contents? id path with
    | none =>
      rw [contents?, Option.map_eq_none_iff, List.getElem?_eq_none_iff] at here
      simp [contents?, setRemote, here]
    | some x =>
      obtain ⟨inside, found⟩ := contents?_eq_some here
      rw [contents?_setRemote_self inside]
      rcases (w.remoteAt id).upload_cases other content append with
        ⟨failure, r, failed, same⟩ | ⟨e, r, done, effect⟩
      · rw [failed, same, found]
      · rw [done, effect, if_neg elsewhere, found]
  · exact contents?_setRemote_of_ne same _

end World

/-- Whether a redirection that is closed leaves a file as it is. -/
def Redirect.Apart (remote : Nat) (path : String) : Redirect → Prop
  | .discard => True
  | .upload id _ other _ => id ≠ remote ∨ normalize other ≠ normalize path

/-- An upload to a file, with the answer to it. -/
structure Upload where
  content : Bytes
  append : Bool
  answer : Except Failure Entry

/-- What a request uploads to a file. -/
def Request.upload? (remote : Nat) (path : String) : (r : Request) → r.Answer → Option Upload
  | .upload id other content append, answer =>
    if id = remote ∧ normalize other = normalize path then some ⟨content, append, answer⟩ else none
  | _, _ => none

/-- What the next step of a script uploads to a file. -/
def Script.upload? (remote : Nat) (path : String) (s : Script α) (w : World) : Option Upload :=
  match s with
  | .ask r _ => r.upload? remote path (w.answer r).1
  | _ => none

/-! ### Scripts that settle a file -/

namespace Script

/-- Whether something that a script does is to flush or to let go of its streams. -/
def Doing.IsMute : Doing → Prop
  | .flush _ | .release => True
  | _ => False

/-- Scripts that do not ask for anything and wait for nothing. -/
abbrev Mute (s : Script α) : Prop := s.Confined Doing.IsMute

/-- Scripts that go on, after some uploads to a file that has a content, to more uploads and another
content that go with the result. They wait for nothing and use no streams, and the file changes by
nothing else; `kept` is what was kept for one of the outputs. -/
inductive Settles (remote : Nat) (path : String) (which : Output) (kept : Bytes)
    (Q : α → List Upload → Option (Option Bytes) → Prop) :
    List Upload → Option (Option Bytes) → Script α → Prop where
  | done {sent x a} : Q a sent x → Settles remote path which kept Q sent x (.done a)
  | ask {sent x r next} : (∀ w : World, w.contents? remote path = x →
      Settles remote path which kept Q (sent ++ (r.upload? remote path (w.answer r).1).toList)
        ((w.answer r).2.contents? remote path) (next (w.answer r).1)) →
      Settles remote path which kept Q sent x (.ask r next)
  | saved {sent x other next} : (∀ content, (other = which → content = kept) →
      Settles remote path which kept Q sent x (next content)) →
      Settles remote path which kept Q sent x (.saved other next)
  | flush {sent x dest next} : (∀ result, Settles remote path which kept Q sent x (next result)) →
      Settles remote path which kept Q sent x (.flush dest next)
  | release {sent x next} : Settles remote path which kept Q sent x next →
      Settles remote path which kept Q sent x (.release next)

namespace Settles

variable {α β : Type} {which : Output} {kept : Bytes} {sent : List Upload}
  {x : Option (Option Bytes)} {P : α → List Upload → Option (Option Bytes) → Prop}
  {Q : β → List Upload → Option (Option Bytes) → Prop}

/-- What the first part leaves of the file is what the second one begins with. -/
theorem bind {s : Script α} (first : Settles remote path which kept P sent x s) {f : α → Script β}
    (second : ∀ a sent y, P a sent y → Settles remote path which kept Q sent y (f a)) :
    Settles remote path which kept Q sent x (s.bind f) := by
  induction first with
  | done result => exact second _ _ _ result
  | ask _ ih => exact .ask ih
  | saved _ ih => exact .saved ih
  | flush _ ih => exact .flush ih
  | release _ ih => exact .release ih

theorem imp {P' : α → List Upload → Option (Option Bytes) → Prop}
    (implies : ∀ a sent y, P a sent y → P' a sent y) {s : Script α}
    (settles : Settles remote path which kept P sent x s) :
    Settles remote path which kept P' sent x s := by
  have same := settles.bind (f := .done) fun a sent y result => .done (implies a sent y result)
  rwa [bind_done] at same

end Settles

end Script

/-! ### Closing redirections -/

namespace Redirect

/-- What a file holds once so many bytes were uploaded to it. -/
def uploaded (append : Bool) (old : Option Bytes) (bytes : Bytes) : Bytes :=
  (if append then old.getD [] else []) ++ bytes

/-- What a file holds once bytes were sent to it: what it held and the bytes, if the upload
succeeded, and otherwise what it held, and then there has to be a failure. -/
def Outcome (append : Bool) (old : Option Bytes) (bytes : Bytes) (failed : Prop)
    (sent : List Upload) (x : Option (Option Bytes)) : Prop :=
  ∃ answer, sent = [⟨bytes, append, answer⟩] ∧
    match answer with
    | .ok _ => x = some (some (uploaded append old bytes))
    | .error _ => x = some old ∧ failed

theorem Outcome.imp {append : Bool} {old : Option Bytes} {bytes : Bytes} {failed fails : Prop}
    {sent : List Upload} {x : Option (Option Bytes)} (implies : failed → fails)
    (outcome : Outcome append old bytes failed sent x) :
    Outcome append old bytes fails sent x := by
  obtain ⟨answer, once, stands⟩ := outcome
  refine ⟨answer, once, ?_⟩
  cases answer with
  | ok e => exact stands
  | error failure => exact ⟨stands.1, implies stands.2⟩

end Redirect

section Closing

open Script
open Redirect (Outcome)

variable {which : Output} {kept : Bytes} {sent : List Upload} {x : Option (Option Bytes)}
  {cache : Nat} {append : Bool} {old : Option Bytes}

/-- Closing a redirection that leads elsewhere leaves the file. -/
theorem Redirect.settles_finish_of_apart {r : Redirect} (apart : r.Apart remote path)
    (content : Bytes) :
    Settles remote path which kept (fun _ sent' y => sent' = sent ∧ y = x) sent x
      (r.finish content).toScript := by
  cases r with
  | discard => exact .done ⟨rfl, rfl⟩
  | upload id cache other append =>
    refine .ask fun w here => ?_
    have elsewhere : ¬ (id = remote ∧ normalize other = normalize path) := fun both =>
      apart.elim (absurd both.1) (absurd both.2)
    rw [World.contents?_answer_upload_of_ne apart, here, Request.upload?, if_neg elsewhere,
      Option.toList_none, List.append_nil]
    cases (w.answer (.upload id other content append)).1 with
    | error failure => exact .done ⟨rfl, rfl⟩
    | ok e => exact .ask fun w here => .done ⟨List.append_nil sent, here⟩

/-- The redirection to a file makes one upload and fails if that does. -/
theorem Redirect.settles_finish (content : Bytes) :
    Settles remote path which kept
      (fun result sent y => Outcome append old content (∃ failure, result = .error failure) sent y)
      [] (some old) ((Redirect.upload remote cache path append).finish content).toScript := by
  refine .ask fun w here => ?_
  rw [Request.upload?, if_pos ⟨rfl, rfl⟩]
  rcases w.answer_upload_cases here content append with
    ⟨failure, failed, same⟩ | ⟨e, done, changed⟩
  · rw [failed, same]
    exact .done ⟨_, rfl, rfl, failure, rfl⟩
  · rw [done, changed]
    exact .ask fun w here => .done ⟨_, rfl, here⟩

namespace Execution

/-- Redirections to other files leave a file as it is, and no failure is forgotten. -/
theorem settles_closeAll_of_apart {redirects : List (Output × Redirect)}
    (apart : ∀ r ∈ redirects, r.2.Apart remote path) (failure : Option Failure) :
    Settles remote path which kept
      (fun later sent' y => (failure.isSome → later.isSome) ∧ sent' = sent ∧ y = x) sent x
      (closeAll failure redirects) := by
  induction redirects generalizing failure with
  | nil => exact .done ⟨id, rfl, rfl⟩
  | cons first rest ih =>
    have further := ih fun r member => apart r (List.mem_cons_of_mem _ member)
    refine .saved fun content _ => ?_
    refine (Redirect.settles_finish_of_apart (apart first (List.mem_cons_self ..)) content).bind
      fun result sent' y same => ?_
    obtain ⟨rfl, rfl⟩ := same
    cases result with
    | ok _ => exact further failure
    | error later =>
      refine (further (failure <|> some later)).imp fun last sent y settled => ?_
      refine ⟨fun _ => settled.1 ?_, settled.2⟩
      cases failure <;> rfl

/-- Of several redirections, the one to a file uploads what was kept for it, once. -/
theorem settles_closeAll {before after : List (Output × Redirect)}
    (apart : ∀ r ∈ before ++ after, r.2.Apart remote path) (failure : Option Failure) :
    Settles remote path which kept
      (fun later => Outcome append old kept later.isSome) [] (some old)
      (closeAll failure (before ++ (which, .upload remote cache path append) :: after)) := by
  induction before generalizing failure with
  | nil =>
    refine .saved fun content same => (Redirect.settles_finish content).bind
      fun result sent y outcome => ?_
    obtain rfl := same rfl
    cases result with
    | ok _ =>
      refine (settles_closeAll_of_apart apart failure).imp fun last sent y settled => ?_
      obtain ⟨-, rfl, rfl⟩ := settled
      exact outcome.imp nofun
    | error later =>
      refine (settles_closeAll_of_apart apart _).imp fun last sent y settled => ?_
      obtain ⟨failed, rfl, rfl⟩ := settled
      refine outcome.imp fun _ => failed ?_
      cases failure <;> rfl
  | cons first before ih =>
    have further := ih fun r member => apart r (List.mem_cons_of_mem _ member)
    refine .saved fun content _ => ?_
    refine (Redirect.settles_finish_of_apart (apart first (List.mem_cons_self ..)) content).bind
      fun result sent y same => ?_
    obtain ⟨rfl, rfl⟩ := same
    cases result with
    | ok _ => exact further _
    | error later => exact further _

/-- A command that no other one follows and that was not cancelled: what was kept for a redirection
is uploaded once, and if that fails then so does the command. -/
theorem settles_closing {w : Wiring} {before after : List (Output × Redirect)}
    (redirects : w.redirects = before ++ (which, .upload remote cache path append) :: after)
    (apart : ∀ r ∈ before ++ after, r.2.Apart remote path) {verdict : Verdict}
    (goesOn : verdict ≠ .error .cancelled) (last : w.sinks.out ≠ .pipe) :
    Settles remote path which kept
      (fun final => Outcome append old kept (∃ failure, final = .error failure)) [] (some old)
      (closing w verdict) := by
  have own : forgiveBrokenPipe (w.sinks.out = .pipe) verdict = verdict := by
    cases verdict with
    | ok _ => rfl
    | error failure => simp [forgiveBrokenPipe, last]
  refine .flush fun flushed => .release ?_
  rw [own]
  split
  · exact absurd rfl goesOn
  · rw [redirects]
    refine (settles_closeAll apart _).bind fun failure sent y outcome => .done (outcome.imp ?_)
    intro failed
    obtain ⟨failure, rfl⟩ := Option.isSome_iff_exists.mp failed
    cases verdict <;> exact ⟨_, rfl⟩

/-- Nothing is asked for once a command has ended that was cancelled or has no redirections. -/
theorem mute_closing {w : Wiring} {verdict : Verdict}
    (quiet : verdict = .error .cancelled ∨ w.redirects = []) : (closing w verdict).Mute := by
  refine .flush trivial fun flushed => .release trivial ?_
  rcases quiet with rfl | none
  · have own : forgiveBrokenPipe (w.sinks.out = .pipe) (.error .cancelled) = .error .cancelled := by
      simp [forgiveBrokenPipe, Failure.isBrokenPipe]
    rw [own]
    exact .done
  · split
    · exact .done
    · rw [none]
      exact .done

end Execution

end Closing

/-! ### Steps of seats that are closing -/

theorem Ensemble.outlets_release {σ : Type} (m : Ensemble σ) (i : Nat) (sinks : PerOutput Sink) :
    (m.release i sinks).outlets = m.outlets := by
  cases i <;> simp only [release] <;> split <;> rfl

namespace Script

variable {σ : Type} {m m' : Ensemble σ} {i : Nat} {sinks : PerOutput Sink} {s next : Script Verdict}

/-- A mute script changes neither the world nor what was written. -/
theorem Mute.of_perform? (mute : s.Mute)
    (performed : m.perform? i sinks s.act = some (next, m')) :
    next.Mute ∧ m'.world = m.world ∧ m'.outlets = m.outlets ∧ m.wrote? i sinks s.act = none := by
  cases mute with
  | done => cases performed
  | flush _ further =>
    cases performed
    exact ⟨further _, rfl, rfl, rfl⟩
  | release _ further =>
    cases performed
    exact ⟨further, (Ensemble.sameSeats_release ..).world, Ensemble.outlets_release .., rfl⟩
  | ask loud | claim loud | list loud | write loud | copy loud | collect loud | saved loud
  | hang loud => cases loud

/-- A mute script uploads nothing. -/
theorem Mute.upload?_eq_none (mute : s.Mute) (w : World) : s.upload? remote path w = none := by
  cases mute with
  | ask loud => cases loud
  | _ => rfl

theorem upload?_of_finish {verdict : Verdict} (ends : s.act = .finish verdict) (w : World) :
    s.upload? remote path w = none := by
  cases s with
  | ask => cases ends
  | _ => rfl

namespace Settles

variable {which : Output} {kept : Bytes} {sent : List Upload} {x : Option (Option Bytes)}
  {Q : Verdict → List Upload → Option (Option Bytes) → Prop}

theorem of_perform? (settles : Settles remote path which kept Q sent x s)
    (saved : (m.outlets.saved.get which).bytes = kept) (here : m.world.contents? remote path = x)
    (performed : m.perform? i sinks s.act = some (next, m')) :
    Settles remote path which kept Q (sent ++ (s.upload? remote path m.world).toList)
        (m'.world.contents? remote path) next ∧
      m'.outlets = m.outlets ∧ m.wrote? i sinks s.act = none := by
  cases settles with
  | done => cases performed
  | ask further =>
    cases performed
    exact ⟨further _ here, rfl, rfl⟩
  | saved further =>
    cases performed
    refine ⟨?_, rfl, rfl⟩
    rw [here]
    exact (List.append_nil sent).symm ▸ further _ fun own => own ▸ saved
  | flush further =>
    cases performed
    refine ⟨?_, rfl, rfl⟩
    rw [here]
    exact (List.append_nil sent).symm ▸ further _
  | release further =>
    cases performed
    refine ⟨?_, Ensemble.outlets_release .., rfl⟩
    rw [(Ensemble.sameSeats_release ..).world, here]
    exact (List.append_nil sent).symm ▸ further

/-- A script that has ended has done to the file what it promised. -/
theorem of_finish (settles : Settles remote path which kept Q sent x s) {verdict : Verdict}
    (ends : s.act = .finish verdict) : Q verdict sent x := by
  cases settles with
  | done result =>
    cases ends
    exact result
  | ask | saved | flush | release => cases ends

end Settles

end Script

/-! ### The redirections of the last command -/

namespace Execution

variable {s : Segment} {p : Prepared} {which : Output} {r : Redirect}

/-- An output has one redirection at most. -/
theorem exists_split_of_mem_redirects (member : (which, r) ∈ (lastWiring s p).redirects) :
    ∃ before after, (lastWiring s p).redirects = before ++ (which, r) :: after ∧
      ∀ other ∈ before ++ after, other.1 ≠ which := by
  have distinct : ((lastWiring s p).redirects.map Prod.fst).Nodup := by
    cases merged : s.mergeErr <;> cases output : p.output <;> cases error : p.error <;>
      simp [lastWiring, merged, output, error]
  obtain ⟨before, after, split⟩ := List.append_of_mem member
  refine ⟨before, after, split, fun other among same => ?_⟩
  rw [split, List.map_append, List.map_cons] at distinct
  have outside := (List.nodup_cons.mp (List.nodup_middle.mp distinct)).1
  rw [← List.map_append] at outside
  exact outside (List.mem_map.mpr ⟨other, among, same⟩)

/-- What is written to an output is kept for its redirection, and with it what is written to the
error output if that follows. -/
theorem get_sinks_eq_saved_iff {remote cache : Nat} {path : String} {append : Bool}
    (member : (which, .upload remote cache path append) ∈ (lastWiring s p).redirects)
    (dest : Output) :
    (lastWiring s p).sinks.get dest = .saved which ↔ dest = which ∨ s.mergeErr := by
  cases merged : s.mergeErr with
  | true =>
    simp only [lastWiring, merged, if_true, Option.mem_toList, Option.map_eq_some_iff,
      Prod.mk.injEq] at member ⊢
    obtain ⟨r, output, rfl, rfl⟩ := member
    simp only [output]
    cases dest <;> simp [PerOutput.get, Redirect.sink]
  | false =>
    simp only [lastWiring, merged, Bool.false_eq_true, if_false, List.mem_append, Option.mem_toList,
      Option.map_eq_some_iff, Prod.mk.injEq, or_false] at member ⊢
    rcases member with ⟨r, output, rfl, rfl⟩ | ⟨r, error, rfl, rfl⟩
    · cases dest with
      | out => simp [PerOutput.get, Redirect.sink, output]
      | err => cases p.error with
        | none => simp [PerOutput.get]
        | some r => cases r <;> simp [PerOutput.get, Redirect.sink]
    · cases dest with
      | err => simp [PerOutput.get, Redirect.sink, error]
      | out => cases p.output with
        | none => simp [PerOutput.get]
        | some r => cases r <;> simp [PerOutput.get, Redirect.sink]

end Execution

end StoreShell
