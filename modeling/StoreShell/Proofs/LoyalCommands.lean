import StoreShell.Execution
import StoreShell.Proofs.LoyalScripts

/-! # Loyal commands

Everything that a line does is loyal: its commands, whatever their arguments are, the expansion of
patterns, and the opening and closing of redirections. While `mkdir` waits for a folder to be made and
`mv` for an object to be moved, they count on their store staying the current one. Nothing else counts
on anything.
-/

namespace StoreShell

open StoreShell.Path Script

variable {α β : Type} {pairings : List Pairing} {told : List Telling}

/-! ### Commands -/

namespace Command

theorem loyal_copy : Loyal pairings told none Task.copy := .copy fun _ => .done

theorem loyal_collect (room : Option Nat) : Loyal pairings told none (Task.collect room) :=
  .collect fun _ => .done

theorem loyal_echo (args : List String) : Loyal pairings told none (echo args) := by
  unfold echo
  split
  · exact loyal_print _ _
  · exact loyal_print _ _

theorem loyal_pwd (args : List String) : Loyal pairings told none (pwd args) :=
  loyal_desk fun _ => loyal_print _ _

private theorem loyal_readOperand (arg : String) :
    Loyal pairings told none (readOperand arg) := by
  refine loyal_desk fun d => (loyal_ask (by trivial)).andThen fun known _ _ more _ => ?_
  have was := d.wasCurrent.mono more
  split
  · exact (loyal_throw _).andThen fun _ _ _ more' _ => loyal_request (was.mono more')
  · exact loyal_request was

private theorem loyal_catFiles (args : List String) : Loyal pairings told none (catFiles args) := by
  induction args generalizing pairings told with
  | nil => exact loyal_pure _
  | cons arg rest ih =>
    rw [catFiles]
    split
    · exact loyal_copy.andThen fun _ _ _ _ _ => ih
    · refine (loyal_readOperand arg).attempt.andThen fun result _ _ _ _ => ?_
      cases result with
      | ok content => exact (loyal_write _ _).andThen fun _ _ _ _ _ => ih
      | error failure =>
        refine (loyal_print _ _).andThen fun _ _ _ _ _ => ?_
        exact ih.andThen fun _ _ _ _ _ => loyal_pure _

/-- `cat` reads each file from the store that is current by then. -/
theorem loyal_cat (args : List String) : Loyal pairings told none (cat args) := by
  unfold cat
  split
  · exact loyal_copy
  · refine (loyal_catFiles args).andThen fun failed _ _ _ _ => ?_
    split
    · exact loyal_throw _
    · exact loyal_pure _

private theorem loyal_lsOperands (o : Operands) {cache remote : Nat}
    (paired : ⟨cache, remote⟩ ∈ pairings) (headers : Bool) (sofar : String) (failed : Bool)
    (operands : List String) :
    Loyal pairings told none (lsOperands o cache remote headers sofar failed operands) := by
  induction operands generalizing pairings told sofar failed with
  | nil => exact loyal_pure _
  | cons operand rest ih =>
    rw [lsOperands]
    refine (loyal_resolve operand).andThen fun path _ _ known _ => ?_
    refine (loyal_stat path).attempt.andThen fun result _ _ known' _ => ?_
    cases result with
    | error failure =>
      exact (loyal_print _ _).andThen fun _ _ _ known'' _ => ih (known'' (known' (known paired))) _ _
    | ok e =>
      dsimp only
      split
      · refine (loyal_ensureChildren (known' (known paired)) path).andThen fun _ _ _ known'' _ => ?_
        exact ih (known'' (known' (known paired))) _ _
      · exact ih (known' (known paired)) _ _

/-- `ls` lists through the cache and the store that it found current together. -/
theorem loyal_ls (args : List String) : Loyal pairings told none (ls args) := by
  refine loyal_desk fun d => ?_
  refine (loyal_lsOperands _ (List.mem_cons_self ..) _ _ _ _).andThen fun shown _ _ _ _ => ?_
  refine (loyal_print _ _).andThen fun _ _ _ _ _ => ?_
  split
  · exact loyal_throw _
  · exact loyal_pure _

private theorem loyal_changeTo (target : String) : Loyal pairings told none (changeTo target) := by
  rw [changeTo]
  refine (loyal_resolve target).andThen fun path _ _ _ _ => ?_
  refine (loyal_statOr path _).andThen fun e _ _ _ _ => ?_
  have enters : ∀ {pairings told}, Loyal pairings told none (do
      Task.ask (.enter path)
      if (← Task.desk).settings.prefetchOnCd then Task.ask (.prefetch path) : Task Unit) := by
    intro pairings told
    refine (loyal_ask (by trivial)).andThen fun _ _ _ _ _ => loyal_desk fun d => ?_
    split
    · exact loyal_ask (by trivial)
    · exact loyal_pure _
  split
  · exact (loyal_throw _).andThen fun _ _ _ _ _ => enters
  · exact enters

/-- `cd` lists in the background through the cache and the store that are current together. -/
theorem loyal_cd (args : List String) : Loyal pairings told none (cd args) := by
  unfold cd
  split
  · exact loyal_desk fun d => loyal_changeTo _
  · exact loyal_changeTo _
  · exact loyal_throw _

private theorem loyal_mkdirAll (parents : Bool) (dirs : List String) :
    Loyal pairings told none (mkdirAll parents dirs) := by
  induction dirs generalizing pairings told with
  | nil => exact loyal_pure _
  | cons dir rest ih =>
    rw [mkdirAll]
    refine (loyal_resolve dir).andThen fun path _ _ _ _ => ?_
    refine .stay fun d => .change d.wasCurrent fun answer => ?_
    cases answer with
    | error failure => exact loyal_done
    | ok e =>
      -- the store that has made the folder is the one that goes with the cache that is found now
      refine .desk fun d' same => ?_
      have notes : ∀ {pairings told}, ⟨d'.cache, d.remote⟩ ∈ pairings →
          .object d.remote (normalize path) e ∈ told → Loyal pairings told none (do
            Task.ask (.note d'.cache path e)
            mkdirAll parents rest : Task Unit) :=
        fun paired said => .note paired said fun _ => ih
      dsimp only
      split
      · exact .ask trivial fun _ =>
          notes (d'.pairing_mem (same _ rfl)) (List.mem_append_right _ (List.mem_cons_self ..))
      · exact notes (d'.pairing_mem (same _ rfl)) (List.mem_cons_self ..)

/-- What `mkdir` notes was told by the store that is current, since no other one may come while it
waits for its folder. -/
theorem loyal_mkdir (args : List String) : Loyal pairings told none (mkdir args) := by
  rw [mkdir]
  dsimp only
  split
  · exact (loyal_throw _).andThen fun _ _ _ _ _ => loyal_mkdirAll _ _
  · exact loyal_mkdirAll _ _

private theorem loyal_removeOperand (recursive force : Bool) (target path : String) :
    Loyal pairings told none (removeOperand recursive force target path) := by
  rw [removeOperand]
  refine (loyal_stat path).attempt.andThen fun result _ _ _ _ => ?_
  cases result with
  | ok e =>
    have removes : ∀ {pairings told}, Loyal pairings told none (do
        Task.ofScript (.request (.remove (← Task.desk).remote path recursive))
        return .removed : Task Removal) :=
      loyal_desk fun d => Loyal.andThen (loyal_request d.wasCurrent) fun _ _ _ _ _ => loyal_pure _
    dsimp only
    split
    · exact (loyal_throw _).andThen fun _ _ _ _ _ => removes
    · exact removes
  | error failure =>
    dsimp only
    split
    · exact loyal_throw _
    · split
      · exact loyal_pure _
      · exact loyal_throw _

private theorem loyal_rmAll (recursive force : Bool) (targets : List String) :
    Loyal pairings told none (rmAll recursive force targets) := by
  induction targets generalizing pairings told with
  | nil => exact loyal_pure _
  | cons target rest ih =>
    rw [rmAll]
    refine (loyal_resolve target).andThen fun path _ _ _ _ => ?_
    refine (loyal_removeOperand _ _ _ _).attempt.andThen fun result _ _ _ _ => ?_
    cases result with
    | error failure =>
      refine (loyal_print _ _).andThen fun _ _ _ _ _ => ?_
      exact ih.andThen fun _ _ _ _ _ => loyal_pure _
    | ok removal =>
      cases removal with
      | passedOver => exact ih
      | removed => exact (loyal_forget path).andThen fun _ _ _ _ _ => ih

/-- All that `rm` puts into a cache is what it has looked up. -/
theorem loyal_rm (args : List String) : Loyal pairings told none (rm args) := by
  rw [rm]
  have removes : ∀ {pairings told}, Loyal pairings told none (do
      let o := Operands.ofArgs args
      if ← rmAll (o.has 'r' || o.has 'R') (o.has 'f') o.operands then throw (.exitStatus 1) :
      Task Unit) := by
    intro pairings told
    refine (loyal_rmAll _ _ _).andThen fun failed _ _ _ _ => ?_
    split
    · exact loyal_throw _
    · exact loyal_pure _
  dsimp only
  split
  · exact (loyal_throw _).andThen fun _ _ _ _ _ => removes
  · exact removes

private theorem loyal_mvAll (intoFolder : Bool) (dest : String) (sources : List String) :
    Loyal pairings told none (mvAll intoFolder dest sources) := by
  induction sources generalizing pairings told with
  | nil => exact loyal_pure _
  | cons source rest ih =>
    rw [mvAll]
    refine (loyal_resolve source).andThen fun path _ _ _ _ => ?_
    refine .stay fun d => .change d.wasCurrent fun answer => ?_
    cases answer with
    | error failure => exact loyal_done
    | ok e =>
      refine .desk fun d' same => .ask trivial fun _ => ?_
      exact .note (d'.pairing_mem (same _ rfl)) (List.mem_append_right _ (List.mem_cons_self ..))
        fun _ => ih

/-- What `mv` does once it knows its operands. -/
theorem loyal_mvInto (dest : String) (sources : List String) : Loyal pairings told none (do
    let path ← Task.resolve dest
    let intoFolder ←
      match ← Task.attempt (Task.stat path) with
      | .ok e => pure e.isFolder
      | .error failure => if failure.isNotFound then pure false else throw failure
    if 1 < sources.length && !intoFolder then throw (.notADirectory dest)
    mvAll intoFolder path sources : Task Unit) := by
  refine (loyal_resolve dest).andThen fun path _ _ _ _ => ?_
  refine (loyal_stat path).attempt.andThen fun result _ _ _ _ => ?_
  have into : ∀ intoFolder {pairings told}, Loyal pairings told none (do
      if 1 < sources.length && !intoFolder then throw (.notADirectory dest)
      mvAll intoFolder path sources : Task Unit) := by
    intro intoFolder pairings told
    split
    · exact (loyal_throw _).andThen fun _ _ _ _ _ => loyal_mvAll _ _ _
    · exact loyal_mvAll _ _ _
  cases result with
  | ok e => exact (loyal_pure _).andThen fun _ _ _ _ _ => into _
  | error failure =>
    dsimp only
    split
    · exact (loyal_pure _).andThen fun _ _ _ _ _ => into _
    · exact (loyal_throw _).andThen fun _ _ _ _ _ => into _

/-- What `mv` notes was told by the store that is current, since no other one may come while it
waits for its object. -/
theorem loyal_mv (args : List String) : Loyal pairings told none (mv args) := by
  rw [mv]
  dsimp only
  split
  · exact loyal_throw _
  · split
    · exact (loyal_throw _).andThen fun _ _ _ _ _ => loyal_mvInto _ _
    · exact loyal_mvInto _ _

end Command

/-! ### Probes and registries -/

namespace Command.Probe

private theorem loyal_floodPieces (pieces : Nat) :
    Loyal pairings told none (floodPieces pieces) := by
  induction pieces generalizing pairings told with
  | zero => exact loyal_pure _
  | succ pieces ih => exact (loyal_write _ _).andThen fun _ _ _ _ _ => ih

/-- The probes are loyal, whatever their arguments are. -/
theorem loyal_of_mem_probes {name : String} {command : Command}
    (member : (name, command) ∈ Registry.probes) (words : List String) :
    Loyal pairings told none (command words) := by
  simp only [Registry.probes, List.mem_cons, Prod.mk.injEq, List.not_mem_nil, or_false] at member
  rcases member with ⟨-, rfl⟩ | ⟨-, rfl⟩ | ⟨-, rfl⟩ | ⟨-, rfl⟩ | ⟨-, rfl⟩ | ⟨-, rfl⟩ | ⟨-, rfl⟩ |
    ⟨-, rfl⟩ | ⟨-, rfl⟩ | ⟨-, rfl⟩
  · exact loyal_print _ _
  · refine (loyal_print _ _).andThen fun _ _ _ _ _ => ?_
    exact (loyal_print _ _).andThen fun _ _ _ _ _ => loyal_throw _
  · exact loyal_throw _
  · exact (loyal_collect _).andThen fun _ _ _ _ _ => loyal_print _ _
  · exact (loyal_collect _).andThen fun _ _ _ _ _ => loyal_write _ _
  · exact (loyal_floodPieces _).andThen fun _ _ _ _ _ => loyal_write _ _
  · exact (loyal_collect _).andThen fun _ _ _ _ _ => loyal_throw _
  · exact loyal_throw _
  · exact loyal_ask (by trivial)
  · exact .hang

end Command.Probe

/-- The standard commands and the probes are loyal, under whatever names they are registered. -/
theorem Registry.loyal_withProbes {aliases : List (String × String)} {name : String}
    {command : Command} (found : (withProbes aliases).get? name = some command)
    (args : List String) : Loyal pairings told none (command args) := by
  rcases get?_insertMany _ _ found with found | member
  · rcases get?_insertMany _ _ found with found | member
    · rcases get?_insertMany _ _ found with nothing | member
      · rw [get?, Std.TreeMap.getElem?_emptyc] at nothing
        cases nothing
      · simp only [List.mem_cons, Prod.mk.injEq, List.not_mem_nil, or_false] at member
        rcases member with ⟨-, rfl⟩ | ⟨-, rfl⟩ | ⟨-, rfl⟩ | ⟨-, rfl⟩ | ⟨-, rfl⟩ | ⟨-, rfl⟩ |
          ⟨-, rfl⟩ | ⟨-, rfl⟩ | ⟨-, rfl⟩ | ⟨-, rfl⟩
        · exact Command.loyal_echo args
        · exact Command.loyal_cat args
        · exact loyal_pure ()
        · exact loyal_throw _
        · exact Command.loyal_pwd args
        · exact Command.loyal_cd args
        · exact Command.loyal_ls args
        · exact Command.loyal_mkdir args
        · exact Command.loyal_rm args
        · exact Command.loyal_mv args
    · exact Command.Probe.loyal_of_mem_probes member args
  · obtain ⟨⟨shortName, probe⟩, -, named⟩ := List.mem_filterMap.mp member
    obtain ⟨known, looked, same⟩ := Option.map_eq_some_iff.mp named
    cases same
    obtain ⟨before, after, listed, -⟩ := List.lookup_eq_some_iff.mp looked
    exact Command.Probe.loyal_of_mem_probes (listed ▸ List.mem_append_cons_self) args

/-! ### Redirections -/

namespace Redirect

/-- Whether a redirection leads to a store that the cache is paired with that takes note of it. -/
def Within (pairings : List Pairing) : Redirect → Prop
  | .discard => True
  | .upload remote cache _ _ => ⟨cache, remote⟩ ∈ pairings

theorem Within.mono {r : Redirect} (within : r.Within pairings) {more : List Pairing}
    (known : pairings ⊆ more) : r.Within more := by
  cases r with
  | discard => trivial
  | upload => exact known within

private theorem loyal_statIfAny {remote : Nat} (was : WasCurrent pairings remote) (cache : Nat)
    (path : String) : Loyal pairings told none (statIfAny remote cache path) := by
  refine (loyal_ask (by trivial)).andThen fun known _ _ more _ => ?_
  cases known with
  | some e => exact loyal_pure _
  | none =>
    refine (loyal_ask (r := .stat remote path) (was.mono more)).andThen fun answer _ _ _ _ => ?_
    cases answer with
    | ok e => exact loyal_pure _
    | error failure =>
      dsimp only
      split
      · exact loyal_pure _
      · exact loyal_throw _

private theorem loyal_statParent {remote : Nat} (was : WasCurrent pairings remote) (cache : Nat)
    (path : String) : Loyal pairings told none (statParent remote cache path) := by
  refine (loyal_ask (by trivial)).andThen fun known _ _ more _ => ?_
  cases known with
  | some e => exact loyal_pure _
  | none => exact loyal_request (was.mono more)

private theorem loyal_checkTarget {remote : Nat} (was : WasCurrent pairings remote) (cache : Nat)
    (path : String) : Loyal pairings told none (checkTarget remote cache path) := by
  refine (loyal_statIfAny was _ _).andThen fun found _ _ more _ => ?_
  cases found with
  | some e =>
    dsimp only
    split
    · exact loyal_throw _
    · exact loyal_pure _
  | none =>
    dsimp only
    split
    · exact loyal_throw _
    · refine (loyal_statParent (was.mono more) _ _).andThen fun e _ _ _ _ => ?_
      split
      · exact loyal_throw _
      · exact loyal_pure _

/-- A redirection is opened to the cache and the store that are current together. -/
theorem loyal_open? (target : Target) : Loyal pairings told none (open? target) := by
  refine loyal_desk fun d => ?_
  dsimp only
  split
  · exact loyal_pure _
  · exact (loyal_checkTarget d.wasCurrent _ _).andThen fun _ _ _ _ _ => loyal_pure _

/-- An upload is told to the cache that was current with its store, whatever is current by then. -/
theorem loyal_finish {r : Redirect} (within : r.Within pairings) (content : Bytes) :
    Loyal pairings told none (r.finish content) := by
  cases r with
  | discard => exact loyal_pure _
  | upload remote cache path append =>
    refine .ask ⟨cache, within⟩ fun answer => ?_
    cases answer with
    | error failure => exact .done
    | ok e => exact .note within (List.mem_cons_self ..) fun _ => .done

end Redirect

theorem loyal_openInput (path : String) : Loyal pairings told none (openInput path) := by
  refine loyal_desk fun d => ?_
  dsimp only
  split
  · exact loyal_pure _
  · refine (loyal_ask (by trivial)).andThen fun known _ _ more _ => ?_
    have was := d.wasCurrent.mono more
    split
    · exact (loyal_throw _).andThen fun _ _ _ more' _ => loyal_request (was.mono more')
    · exact loyal_request was

namespace Execution

private theorem loyal_closeAll {redirects : List (Output × Redirect)}
    (within : ∀ r ∈ redirects, r.2.Within pairings) (failure : Option Failure) :
    Loyal pairings told none (closeAll failure redirects) := by
  induction redirects generalizing pairings told failure with
  | nil => exact .done
  | cons first rest ih =>
    obtain ⟨here, later⟩ := List.forall_mem_cons.mp within
    refine .saved fun content => (Redirect.loyal_finish here content).bind fun result _ _ known _ => ?_
    have later' := fun r member => (later r member).mono known
    cases result with
    | ok _ => exact ih later' _
    | error failure' => exact ih later' _

/-- The end of a command is loyal if its redirections are. -/
theorem loyal_closing {w : Wiring} (within : ∀ r ∈ w.redirects, r.2.Within pairings)
    (verdict : Verdict) : Loyal pairings told none (closing w verdict) := by
  refine .flush fun flushed => .release ?_
  split
  · exact .done
  · exact (loyal_closeAll within _).bind fun _ _ _ _ _ => .done

end Execution

/-! ### Patterns -/

namespace Glob

variable {site : Site}

private theorem loyal_load (paired : ⟨site.cache, site.remote⟩ ∈ pairings)
    (pattern folder : String) : Loyal pairings told none (load site pattern folder) := by
  rw [load]
  refine (loyal_ask (by trivial)).andThen fun known _ _ more _ => ?_
  split
  · exact loyal_pure _
  · refine (loyal_ensureChildren (more paired) _).attempt.andThen fun result _ _ _ _ => ?_
    split
    · exact loyal_pure _
    · exact loyal_pure _
    · split
      · exact loyal_pure _
      · exact loyal_throw _

private theorem loyal_exists? (paired : ⟨site.cache, site.remote⟩ ∈ pairings)
    (pattern folder name : String) (needFolder : Bool) :
    Loyal pairings told none (exists? site pattern folder name needFolder) := by
  rw [exists?]
  split
  · exact loyal_pure _
  · refine (loyal_load paired _ _).andThen fun loaded _ _ _ _ => ?_
    split
    · exact loyal_pure _
    · refine (loyal_ask (by trivial)).andThen fun known _ _ _ _ => ?_
      cases known with
      | none => exact loyal_pure _
      | some e => exact loyal_pure _

private theorem loyal_keepFolders (needFolder : Bool) (candidates : List Candidate) :
    Loyal pairings told none (keepFolders site needFolder candidates) := by
  induction candidates generalizing pairings told with
  | nil => exact loyal_pure _
  | cons c rest ih =>
    rw [keepFolders]
    have goesOn : ∀ (known : Option Entry) {pairings told}, Loyal pairings told none (do
        let rest ← keepFolders site needFolder rest
        return if needFolder && !known.any Entry.isFolder then rest else c :: rest :
        Task (List Candidate)) :=
      fun known _ _ => ih.andThen fun _ _ _ _ _ => loyal_pure _
    dsimp only
    split
    · exact (loyal_ask (by trivial)).andThen fun known _ _ _ _ => goesOn known
    · exact (loyal_pure _).andThen fun known _ _ _ _ => goesOn known

private theorem loyal_followLiteral (paired : ⟨site.cache, site.remote⟩ ∈ pairings)
    (pattern name : String) (needFolder mustExist : Bool) (candidates : List Candidate) :
    Loyal pairings told none
      (followLiteral site pattern name needFolder mustExist candidates) := by
  induction candidates generalizing pairings told with
  | nil => exact loyal_pure _
  | cons c rest ih =>
    rw [followLiteral]
    have goesOn : ∀ (here : Bool) {more further}, pairings ⊆ more → told ⊆ further →
        Loyal more further none (do
          let rest ← followLiteral site pattern name needFolder mustExist rest
          return if here then
            ⟨Candidate.showJoin c.shown name, Path.resolve c.path name⟩ :: rest else rest :
          Task (List Candidate)) :=
      fun here _ _ more _ => (ih (more paired)).andThen fun _ _ _ _ _ => loyal_pure _
    dsimp only
    split
    · exact (loyal_exists? paired _ _ _ _).andThen goesOn
    · exact (loyal_pure _).andThen goesOn

private theorem loyal_followPattern (paired : ⟨site.cache, site.remote⟩ ∈ pairings)
    (pattern component : String) (needFolder : Bool) (candidates : List Candidate) :
    Loyal pairings told none
      (followPattern site pattern component needFolder candidates) := by
  induction candidates generalizing pairings told with
  | nil => exact loyal_pure _
  | cons c rest ih =>
    rw [followPattern]
    refine (loyal_load paired _ _).andThen fun loaded _ _ more _ => ?_
    have goesOn : ∀ found {pairings told}, ⟨site.cache, site.remote⟩ ∈ pairings →
        Loyal pairings told none (do
          return found ++ (← followPattern site pattern component needFolder rest) :
          Task (List Candidate)) :=
      fun found _ _ paired => (ih paired).andThen fun _ _ _ _ _ => loyal_pure _
    dsimp only
    split
    · refine (loyal_ask (by trivial)).andThen fun paths _ _ more' _ => ?_
      exact (loyal_keepFolders _ _).andThen fun _ _ _ more'' _ =>
        goesOn _ (more'' (more' (more paired)))
    · exact (loyal_pure _).andThen fun _ _ _ more' _ => goesOn _ (more' (more paired))

private theorem loyal_followAll (paired : ⟨site.cache, site.remote⟩ ∈ pairings) (pattern : String)
    (foldersOnly afterPattern : Bool) (components : List String) (candidates : List Candidate) :
    Loyal pairings told none
      (followAll site pattern foldersOnly afterPattern components candidates) := by
  induction components generalizing pairings told afterPattern candidates with
  | nil => exact loyal_pure _
  | cons component rest ih =>
    rw [followAll]
    have goesOn : ∀ next {pairings told}, ⟨site.cache, site.remote⟩ ∈ pairings →
        Loyal pairings told none (do
          if next.isEmpty then return []
          followAll site pattern foldersOnly (afterPattern || isPattern component) rest next :
          Task (List Candidate)) := by
      intro next pairings told paired
      split
      · exact loyal_pure _
      · exact ih paired _ _
    dsimp only
    split
    · exact (loyal_followPattern paired _ _ _ _).andThen fun _ _ _ more _ => goesOn _ (more paired)
    · exact (loyal_followLiteral paired _ _ _ _ _).andThen fun _ _ _ more _ =>
        goesOn _ (more paired)

/-- Arguments are expanded through a cache and a store that were current together. -/
theorem loyal_expand (paired : ⟨site.cache, site.remote⟩ ∈ pairings) (words : List Word) :
    Loyal pairings told none (expand site words) := by
  induction words generalizing pairings told with
  | nil => exact loyal_pure _
  | cons word rest ih =>
    rw [expand]
    have goesOn : ∀ found {more further}, pairings ⊆ more → told ⊆ further →
        Loyal more further none (do
          let rest ← expand site rest
          return (if found.isEmpty then [word.text] else found) ++ rest : Task (List String)) :=
      fun found _ _ more _ => (ih (more paired)).andThen fun _ _ _ _ _ => loyal_pure _
    dsimp only
    split
    · refine Loyal.andThen ?_ goesOn
      exact (loyal_followAll paired _ _ _ _ _).andThen fun _ _ _ _ _ => loyal_pure _
    · exact (loyal_pure _).andThen goesOn

end Glob

namespace Prepared

private theorem loyal_onSome {f : α → Task β} (a : Option α)
    (loyal : ∀ a {pairings told}, Loyal pairings told none (f a)) :
    Loyal pairings told none (onSome a f) := by
  cases a with
  | none => exact loyal_pure _
  | some a => exact (loyal a).bind fun result _ _ _ _ => by cases result <;> exact .done

private theorem loyal_expandAll {site : Glob.Site} (paired : ⟨site.cache, site.remote⟩ ∈ pairings)
    (segments : List Segment) : Loyal pairings told none (expandAll site segments) := by
  induction segments generalizing pairings told with
  | nil => exact loyal_pure _
  | cons s rest ih =>
    refine (Glob.loyal_expand paired _).andThen fun _ _ _ more _ => ?_
    exact (ih (more paired)).andThen fun _ _ _ _ _ => loyal_pure _

/-- The preparation of a pipeline is loyal. -/
theorem loyal_ofPipeline (p : Pipeline) : Loyal pairings told none (ofPipeline p) := by
  refine (loyal_onSome _ fun _ => loyal_openInput _).andThen fun _ _ _ _ _ => ?_
  refine (loyal_onSome _ fun _ => Redirect.loyal_open? _).andThen fun _ _ _ _ _ => ?_
  refine (loyal_onSome _ fun _ => Redirect.loyal_open? _).andThen fun _ more _ _ _ => ?_
  refine loyal_desk fun d => ?_
  have paired : (⟨d.cache, d.remote⟩ : Pairing) ∈ d.pairing :: more := List.mem_cons_self ..
  exact (loyal_expandAll paired _).andThen fun _ _ _ _ _ => loyal_pure _

end Prepared

end StoreShell
