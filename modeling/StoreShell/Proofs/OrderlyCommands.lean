import StoreShell.Execution
import StoreShell.Proofs.Claims

/-! # Orderly commands

Everything that a line does is orderly: its commands, whatever their arguments are, the expansion of
patterns, and the opening and closing of redirections.
-/

namespace StoreShell

open Script

variable {α β : Type} {n : Nat}

/-! ### Commands -/

namespace Command

theorem orderly_copy : Orderly n none Task.copy := .copy fun _ => .done

theorem orderly_collect (room : Option Nat) : Orderly n none (Task.collect room) :=
  .collect fun _ => .done

theorem orderly_echo (args : List String) : Orderly n none (echo args) := by
  unfold echo
  split
  · exact orderly_print _ _
  · exact orderly_print _ _

theorem orderly_pwd (args : List String) : Orderly n none (pwd args) :=
  orderly_desk fun _ _ _ _ => orderly_print _ _

private theorem orderly_readOperand (arg : String) : Orderly n none (readOperand arg) := by
  refine orderly_desk fun _ d _ _ => (orderly_ask rfl).andThen fun _ known _ => ?_
  split
  · exact (orderly_throw _).andThen fun _ _ _ => orderly_request rfl
  · exact orderly_request rfl

private theorem orderly_catFiles (args : List String) : Orderly n none (catFiles args) := by
  induction args generalizing n with
  | nil => exact orderly_pure _
  | cons arg rest ih =>
    rw [catFiles]
    split
    · exact orderly_copy.andThen fun _ _ _ => ih
    · refine (orderly_readOperand arg).attempt.andThen fun _ result _ => ?_
      cases result with
      | ok content => exact (orderly_write _ _).andThen fun _ _ _ => ih
      | error failure =>
        refine (orderly_print _ _).andThen fun _ _ _ => ?_
        exact ih.andThen fun _ _ _ => orderly_pure _

theorem orderly_cat (args : List String) : Orderly n none (cat args) := by
  unfold cat
  split
  · exact orderly_copy
  · refine (orderly_catFiles args).andThen fun _ failed _ => ?_
    split
    · exact orderly_throw _
    · exact orderly_pure _

private theorem orderly_lsOperands (o : Operands) {cache : Nat} (inside : cache < n) (remote : Nat)
    (headers : Bool) (sofar : String) (failed : Bool) (operands : List String) :
    Orderly n none (lsOperands o cache remote headers sofar failed operands) := by
  induction operands generalizing n sofar failed with
  | nil => exact orderly_pure _
  | cons operand rest ih =>
    rw [lsOperands]
    refine (orderly_resolve operand).andThen fun m path more => ?_
    refine (orderly_stat path).attempt.andThen fun m' result further => ?_
    cases result with
    | error failure => exact (orderly_print _ _).andThen fun _ _ _ => ih (by omega) _ _
    | ok e =>
      dsimp only
      split
      · refine (orderly_ensureChildren (by omega) remote path).andThen fun _ children _ => ?_
        exact ih (by omega) _ _
      · exact ih (by omega) _ _

/-- `ls` holds no claim between two of its operands. -/
theorem orderly_ls (args : List String) : Orderly n none (ls args) := by
  refine orderly_desk fun m desk _ inside => ?_
  refine (orderly_lsOperands _ inside _ _ _ _ _).andThen fun _ shown _ => ?_
  refine (orderly_print _ _).andThen fun _ _ _ => ?_
  split
  · exact orderly_throw _
  · exact orderly_pure _

private theorem orderly_changeTo (target : String) : Orderly n none (changeTo target) := by
  rw [changeTo]
  refine (orderly_resolve target).andThen fun _ path _ => ?_
  refine (orderly_statOr path _).andThen fun _ e _ => ?_
  have enters : ∀ m, Orderly m none (do
      Task.ask (.enter path)
      if (← Task.desk).settings.prefetchOnCd then Task.ask (.prefetch path) : Task Unit) := by
    intro m
    refine (orderly_ask rfl).andThen fun _ _ _ => orderly_desk fun _ desk _ _ => ?_
    split
    · exact orderly_ask rfl
    · exact orderly_pure _
  split
  · exact (orderly_throw _).andThen fun _ _ _ => enters _
  · exact enters _

/-- `cd` hands the claim on its folder over to the background, if it claims it at all. -/
theorem orderly_cd (args : List String) : Orderly n none (cd args) := by
  unfold cd
  split
  · exact orderly_desk fun _ desk _ _ => orderly_changeTo _
  · exact orderly_changeTo _
  · exact orderly_throw _

private theorem orderly_mkdirAll (parents : Bool) (dirs : List String) :
    Orderly n none (mkdirAll parents dirs) := by
  induction dirs generalizing n with
  | nil => exact orderly_pure _
  | cons dir rest ih =>
    rw [mkdirAll]
    refine (orderly_resolve dir).andThen fun _ path _ => orderly_desk fun _ desk _ _ => ?_
    refine Orderly.andThen (orderly_request rfl) fun _ e _ => orderly_desk fun _ desk' _ _ => ?_
    have notes : ∀ m, Orderly m none (do
        Task.ask (.note desk'.cache path e)
        mkdirAll parents rest : Task Unit) :=
      fun m => (orderly_ask rfl).andThen fun _ _ _ => ih
    dsimp only
    split
    · exact (orderly_ask rfl).andThen fun _ _ _ => notes _
    · exact notes _

/-- `mkdir` claims nothing. -/
theorem orderly_mkdir (args : List String) : Orderly n none (mkdir args) := by
  rw [mkdir]
  dsimp only
  split
  · exact (orderly_throw _).andThen fun _ _ _ => orderly_mkdirAll _ _
  · exact orderly_mkdirAll _ _

private theorem orderly_removeOperand (recursive force : Bool) (target path : String) :
    Orderly n none (removeOperand recursive force target path) := by
  rw [removeOperand]
  refine (orderly_stat path).attempt.andThen fun _ result _ => ?_
  cases result with
  | ok e =>
    have removes : ∀ m, Orderly m none (do
        Task.ofScript (.request (.remove (← Task.desk).remote path recursive))
        return .removed : Task Removal) :=
      fun m => orderly_desk fun _ desk _ _ =>
        Orderly.andThen (orderly_request rfl) fun _ _ _ => orderly_pure _
    dsimp only
    split
    · exact (orderly_throw _).andThen fun _ _ _ => removes _
    · exact removes _
  | error failure =>
    dsimp only
    split
    · exact orderly_throw _
    · split
      · exact orderly_pure _
      · exact orderly_throw _

private theorem orderly_rmAll (recursive force : Bool) (targets : List String) :
    Orderly n none (rmAll recursive force targets) := by
  induction targets generalizing n with
  | nil => exact orderly_pure _
  | cons target rest ih =>
    rw [rmAll]
    refine (orderly_resolve target).andThen fun _ path _ => ?_
    refine (orderly_removeOperand _ _ _ _).attempt.andThen fun _ result _ => ?_
    cases result with
    | error failure =>
      refine (orderly_print _ _).andThen fun _ _ _ => ?_
      exact ih.andThen fun _ _ _ => orderly_pure _
    | ok removal =>
      cases removal with
      | passedOver => exact ih
      | removed => exact (orderly_forget path).andThen fun _ _ _ => ih

theorem orderly_rm (args : List String) : Orderly n none (rm args) := by
  rw [rm]
  have removes : ∀ m, Orderly m none (do
      let o := Operands.ofArgs args
      if ← rmAll (o.has 'r' || o.has 'R') (o.has 'f') o.operands then throw (.exitStatus 1) :
      Task Unit) := by
    intro m
    refine (orderly_rmAll _ _ _).andThen fun _ failed _ => ?_
    split
    · exact orderly_throw _
    · exact orderly_pure _
  dsimp only
  split
  · exact (orderly_throw _).andThen fun _ _ _ => removes _
  · exact removes _

private theorem orderly_mvAll (intoFolder : Bool) (dest : String) (sources : List String) :
    Orderly n none (mvAll intoFolder dest sources) := by
  induction sources generalizing n with
  | nil => exact orderly_pure _
  | cons source rest ih =>
    rw [mvAll]
    refine (orderly_resolve source).andThen fun _ path _ => orderly_desk fun _ desk _ _ => ?_
    refine Orderly.andThen (orderly_request rfl) fun _ e _ => orderly_desk fun _ desk' _ _ => ?_
    refine (orderly_ask rfl).andThen fun _ _ _ => ?_
    exact (orderly_ask rfl).andThen fun _ _ _ => ih

/-- What `mv` does once it knows its operands. -/
theorem orderly_mvInto (dest : String) (sources : List String) : Orderly n none (do
    let path ← Task.resolve dest
    let intoFolder ←
      match ← Task.attempt (Task.stat path) with
      | .ok e => pure e.isFolder
      | .error failure => if failure.isNotFound then pure false else throw failure
    if 1 < sources.length && !intoFolder then throw (.notADirectory dest)
    mvAll intoFolder path sources : Task Unit) := by
  refine (orderly_resolve dest).andThen fun _ path _ => ?_
  refine (orderly_stat path).attempt.andThen fun _ result _ => ?_
  have into : ∀ m intoFolder, Orderly m none (do
      if 1 < sources.length && !intoFolder then throw (.notADirectory dest)
      mvAll intoFolder path sources : Task Unit) := by
    intro m intoFolder
    split
    · exact (orderly_throw _).andThen fun _ _ _ => orderly_mvAll _ _ _
    · exact orderly_mvAll _ _ _
  cases result with
  | ok e => exact (orderly_pure _).andThen fun _ _ _ => into _ _
  | error failure =>
    dsimp only
    split
    · exact (orderly_pure _).andThen fun _ _ _ => into _ _
    · exact (orderly_throw _).andThen fun _ _ _ => into _ _

theorem orderly_mv (args : List String) : Orderly n none (mv args) := by
  rw [mv]
  dsimp only
  split
  · exact orderly_throw _
  · split
    · exact (orderly_throw _).andThen fun _ _ _ => orderly_mvInto _ _
    · exact orderly_mvInto _ _

end Command

/-! ### Probes -/

namespace Command.Probe

private theorem orderly_floodPieces (pieces : Nat) : Orderly n none (floodPieces pieces) := by
  induction pieces generalizing n with
  | zero => exact orderly_pure _
  | succ pieces ih => exact (orderly_write _ _).andThen fun _ _ _ => ih

/-- The probes are orderly, whatever their arguments are. -/
theorem orderly_of_mem_probes {name : String} {command : Command}
    (member : (name, command) ∈ Registry.probes) (words : List String) :
    Orderly n none (command words) := by
  simp only [Registry.probes, List.mem_cons, Prod.mk.injEq, List.not_mem_nil, or_false] at member
  rcases member with ⟨-, rfl⟩ | ⟨-, rfl⟩ | ⟨-, rfl⟩ | ⟨-, rfl⟩ | ⟨-, rfl⟩ | ⟨-, rfl⟩ | ⟨-, rfl⟩ |
    ⟨-, rfl⟩ | ⟨-, rfl⟩ | ⟨-, rfl⟩
  · exact orderly_print _ _
  · refine (orderly_print _ _).andThen fun _ _ _ => ?_
    exact (orderly_print _ _).andThen fun _ _ _ => orderly_throw _
  · exact orderly_throw _
  · exact (orderly_collect _).andThen fun _ _ _ => orderly_print _ _
  · exact (orderly_collect _).andThen fun _ _ _ => orderly_write _ _
  · exact (orderly_floodPieces _).andThen fun _ _ _ => orderly_write _ _
  · exact (orderly_collect _).andThen fun _ _ _ => orderly_throw _
  · exact orderly_throw _
  · exact orderly_ask rfl
  · exact .hang

end Command.Probe

/-! ### Registries -/

namespace Registry

/-- The standard commands and the probes are orderly, under whatever names they are registered. -/
theorem orderly_withProbes {aliases : List (String × String)} {name : String} {command : Command}
    (found : (withProbes aliases).get? name = some command) (args : List String) :
    Orderly n none (command args) := by
  rcases get?_insertMany _ _ found with found | member
  · rcases get?_insertMany _ _ found with found | member
    · rcases get?_insertMany _ _ found with nothing | member
      · rw [get?, Std.TreeMap.getElem?_emptyc] at nothing
        cases nothing
      · simp only [List.mem_cons, Prod.mk.injEq, List.not_mem_nil, or_false] at member
        rcases member with ⟨-, rfl⟩ | ⟨-, rfl⟩ | ⟨-, rfl⟩ | ⟨-, rfl⟩ | ⟨-, rfl⟩ | ⟨-, rfl⟩ |
          ⟨-, rfl⟩ | ⟨-, rfl⟩ | ⟨-, rfl⟩ | ⟨-, rfl⟩
        · exact Command.orderly_echo args
        · exact Command.orderly_cat args
        · exact orderly_pure ()
        · exact orderly_throw _
        · exact Command.orderly_pwd args
        · exact Command.orderly_cd args
        · exact Command.orderly_ls args
        · exact Command.orderly_mkdir args
        · exact Command.orderly_rm args
        · exact Command.orderly_mv args
    · exact Command.Probe.orderly_of_mem_probes member args
  · obtain ⟨⟨shortName, probe⟩, -, named⟩ := List.mem_filterMap.mp member
    obtain ⟨known, looked, same⟩ := Option.map_eq_some_iff.mp named
    cases same
    obtain ⟨before, after, listed, -⟩ := List.lookup_eq_some_iff.mp looked
    exact Command.Probe.orderly_of_mem_probes (listed ▸ List.mem_append_cons_self) args

end Registry

/-! ### Redirections -/

namespace Redirect

private theorem orderly_statIfAny (remote cache : Nat) (path : String) :
    Orderly n none (statIfAny remote cache path) := by
  refine (orderly_ask rfl).andThen fun _ known _ => ?_
  cases known with
  | some e => exact orderly_pure _
  | none =>
    refine (orderly_ask rfl).andThen fun _ told _ => ?_
    cases told with
    | ok e => exact orderly_pure _
    | error failure =>
      dsimp only
      split
      · exact orderly_pure _
      · exact orderly_throw _

private theorem orderly_statParent (remote cache : Nat) (path : String) :
    Orderly n none (statParent remote cache path) := by
  refine (orderly_ask rfl).andThen fun _ known _ => ?_
  cases known with
  | some e => exact orderly_pure _
  | none => exact orderly_request rfl

private theorem orderly_checkTarget (remote cache : Nat) (path : String) :
    Orderly n none (checkTarget remote cache path) := by
  refine (orderly_statIfAny _ _ _).andThen fun _ found _ => ?_
  cases found with
  | some e =>
    dsimp only
    split
    · exact orderly_throw _
    · exact orderly_pure _
  | none =>
    dsimp only
    split
    · exact orderly_throw _
    · refine (orderly_statParent _ _ _).andThen fun _ e _ => ?_
      split
      · exact orderly_throw _
      · exact orderly_pure _

theorem orderly_open? (target : Target) : Orderly n none (open? target) := by
  refine orderly_desk fun _ desk _ _ => ?_
  dsimp only
  split
  · exact orderly_pure _
  · exact (orderly_checkTarget _ _ _).andThen fun _ _ _ => orderly_pure _

theorem orderly_finish (r : Redirect) (content : Bytes) : Orderly n none (r.finish content) := by
  cases r with
  | discard => exact orderly_pure _
  | upload remote cache path append =>
    exact Orderly.andThen (orderly_request rfl) fun _ e _ => orderly_ask rfl

end Redirect

theorem orderly_openInput (path : String) : Orderly n none (openInput path) := by
  refine orderly_desk fun _ desk _ _ => ?_
  dsimp only
  split
  · exact orderly_pure _
  · refine (orderly_ask rfl).andThen fun _ known _ => ?_
    split
    · exact (orderly_throw _).andThen fun _ _ _ => orderly_request rfl
    · exact orderly_request rfl

namespace Execution

private theorem orderly_closeAll (failure : Option Failure) (redirects : List (Output × Redirect)) :
    Orderly n none (closeAll failure redirects) := by
  induction redirects generalizing n failure with
  | nil => exact .done
  | cons first rest ih =>
    refine .saved fun content => (Redirect.orderly_finish first.2 content).bind fun _ result _ => ?_
    cases result with
    | ok _ => exact ih _
    | error later => exact ih _

/-- What is done after the end of a command claims nothing. -/
theorem orderly_closing (w : Wiring) (verdict : Verdict) : Orderly n none (closing w verdict) := by
  refine .flush fun flushed => .release ?_
  split
  · exact .done
  · exact (orderly_closeAll _ _).bind fun _ _ _ => .done

end Execution

/-! ### Patterns -/

namespace Glob

variable {site : Site}

private theorem orderly_load (inside : site.cache < n) (pattern folder : String) :
    Orderly n none (load site pattern folder) := by
  rw [load]
  refine (orderly_ask rfl).andThen fun m known more => ?_
  split
  · exact orderly_pure _
  · refine (orderly_ensureChildren (by omega) _ _).attempt.andThen fun _ result _ => ?_
    split
    · exact orderly_pure _
    · exact orderly_pure _
    · split
      · exact orderly_pure _
      · exact orderly_throw _

private theorem orderly_exists? (inside : site.cache < n) (pattern folder name : String)
    (needFolder : Bool) : Orderly n none (exists? site pattern folder name needFolder) := by
  rw [exists?]
  split
  · exact orderly_pure _
  · refine (orderly_load inside _ _).andThen fun _ loaded _ => ?_
    split
    · exact orderly_pure _
    · refine (orderly_ask rfl).andThen fun _ known _ => ?_
      cases known with
      | none => exact orderly_pure _
      | some e => exact orderly_pure _

private theorem orderly_keepFolders (needFolder : Bool) (candidates : List Candidate) :
    Orderly n none (keepFolders site needFolder candidates) := by
  induction candidates generalizing n with
  | nil => exact orderly_pure _
  | cons c rest ih =>
    rw [keepFolders]
    have goesOn : ∀ m (known : Option Entry), Orderly m none (do
        let rest ← keepFolders site needFolder rest
        return if needFolder && !known.any Entry.isFolder then rest else c :: rest :
        Task (List Candidate)) :=
      fun m known => ih.andThen fun _ _ _ => orderly_pure _
    dsimp only
    split
    · exact (orderly_ask rfl).andThen fun m known _ => goesOn m known
    · exact (orderly_pure _).andThen fun m known _ => goesOn m known

private theorem orderly_followLiteral (inside : site.cache < n) (pattern name : String)
    (needFolder mustExist : Bool) (candidates : List Candidate) :
    Orderly n none (followLiteral site pattern name needFolder mustExist candidates) := by
  induction candidates generalizing n with
  | nil => exact orderly_pure _
  | cons c rest ih =>
    rw [followLiteral]
    have goesOn : ∀ m (here : Bool), n ≤ m → Orderly m none (do
        let rest ← followLiteral site pattern name needFolder mustExist rest
        return if here then
          ⟨Candidate.showJoin c.shown name, Path.resolve c.path name⟩ :: rest else rest :
        Task (List Candidate)) :=
      fun m here more => (ih (by omega)).andThen fun _ _ _ => orderly_pure _
    dsimp only
    split
    · exact (orderly_exists? inside _ _ _ _).andThen goesOn
    · exact (orderly_pure _).andThen goesOn

private theorem orderly_followPattern (inside : site.cache < n) (pattern component : String)
    (needFolder : Bool) (candidates : List Candidate) :
    Orderly n none (followPattern site pattern component needFolder candidates) := by
  induction candidates generalizing n with
  | nil => exact orderly_pure _
  | cons c rest ih =>
    rw [followPattern]
    refine (orderly_load inside _ _).andThen fun m loaded _ => ?_
    have goesOn : ∀ m found, site.cache < m → Orderly m none (do
        return found ++ (← followPattern site pattern component needFolder rest) :
        Task (List Candidate)) :=
      fun m found inside => (ih inside).andThen fun _ _ _ => orderly_pure _
    dsimp only
    split
    · refine (orderly_ask rfl).andThen fun _ paths _ => ?_
      exact (orderly_keepFolders _ _).andThen fun _ _ _ => goesOn _ _ (by omega)
    · exact (orderly_pure _).andThen fun _ _ _ => goesOn _ _ (by omega)

private theorem orderly_followAll (inside : site.cache < n) (pattern : String)
    (foldersOnly afterPattern : Bool) (components : List String) (candidates : List Candidate) :
    Orderly n none (followAll site pattern foldersOnly afterPattern components candidates) := by
  induction components generalizing n afterPattern candidates with
  | nil => exact orderly_pure _
  | cons component rest ih =>
    rw [followAll]
    have goesOn : ∀ m next, site.cache < m → Orderly m none (do
        if next.isEmpty then return []
        followAll site pattern foldersOnly (afterPattern || isPattern component) rest next :
        Task (List Candidate)) := by
      intro m next inside
      split
      · exact orderly_pure _
      · exact ih inside _ _
    dsimp only
    split
    · exact (orderly_followPattern inside _ _ _ _).andThen fun _ _ _ => goesOn _ _ (by omega)
    · exact (orderly_followLiteral inside _ _ _ _ _).andThen fun _ _ _ => goesOn _ _ (by omega)

/-- Each folder that a pattern leads through is claimed and given back by itself. -/
theorem orderly_expand (inside : site.cache < n) (words : List Word) :
    Orderly n none (expand site words) := by
  induction words generalizing n with
  | nil => exact orderly_pure _
  | cons word rest ih =>
    rw [expand]
    have goesOn : ∀ m found, n ≤ m → Orderly m none (do
        let rest ← expand site rest
        return (if found.isEmpty then [word.text] else found) ++ rest : Task (List String)) :=
      fun m found more => (ih (by omega)).andThen fun _ _ _ => orderly_pure _
    dsimp only
    split
    · refine Orderly.andThen ?_ goesOn
      exact (orderly_followAll inside _ _ _ _ _).andThen fun _ _ _ => orderly_pure _
    · exact (orderly_pure _).andThen goesOn

end Glob

namespace Prepared

private theorem orderly_onSome {f : α → Task β} (a : Option α)
    (orderly : ∀ m a, Orderly m none (f a)) : Orderly n none (onSome a f) := by
  cases a with
  | none => exact orderly_pure _
  | some a => exact (orderly n a).bind fun _ result _ => by cases result <;> exact .done

private theorem orderly_expandAll {site : Glob.Site} (inside : site.cache < n)
    (segments : List Segment) : Orderly n none (expandAll site segments) := by
  induction segments generalizing n with
  | nil => exact orderly_pure _
  | cons s rest ih =>
    refine (Glob.orderly_expand inside _).andThen fun _ _ _ => ?_
    exact (ih (by omega)).andThen fun _ _ _ => orderly_pure _

/-- The preparation of a pipeline is orderly. -/
theorem orderly_ofPipeline (p : Pipeline) : Orderly n none (ofPipeline p) := by
  refine (orderly_onSome _ fun _ _ => orderly_openInput _).andThen fun _ _ _ => ?_
  refine (orderly_onSome _ fun _ _ => Redirect.orderly_open? _).andThen fun _ _ _ => ?_
  refine (orderly_onSome _ fun _ _ => Redirect.orderly_open? _).andThen fun _ _ _ => ?_
  refine orderly_desk fun _ desk _ inside => ?_
  exact (orderly_expandAll inside _).andThen fun _ _ _ => orderly_pure _

end Prepared

end StoreShell
