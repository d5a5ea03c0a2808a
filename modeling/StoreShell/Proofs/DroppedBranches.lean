import StoreShell.Proofs.ReplacedChildren

/-! # Listings of folders that are dropped

While the listing of a folder is on its way, a folder further up may be listed and turn out not to
have the child that leads down to it. The whole branch is dropped then, and the claim below knows
nothing of it: installing a listing overtakes no listing but that of its own folder. Whether the
listing below is installed on arrival, and brings the folder back, depends on everything else that
was done in the meantime.
-/

namespace StoreShell.Cache

open StoreShell.Path

variable {c : Cache} {o : Operation} {earlier later : List Operation} {folder above name : String}
  {listing : List Entry}

/-- The listing of another folder is not overtaken by one that is installed. -/
theorem Operation.Installs.overtakes_eq_false (installs : o.Installs c above listing)
    (differ : above ≠ folder) : o.overtakes folder = false := by
  cases o with
  | addChildren other listed => exact decide_eq_false fun same => differ (installs.1 ▸ same)
  | finishFetch other listed => rfl
  | _ => exact installs.elim

/-- The claim on another folder is not given back by a listing that is installed. -/
theorem Operation.Installs.givesBack_eq_false (installs : o.Installs c above listing)
    (differ : above ≠ folder) : o.givesBack folder = false := by
  cases o with
  | addChildren other listed => rfl
  | finishFetch other listed => exact decide_eq_false fun same => differ (installs.1 ▸ same)
  | _ => exact installs.elim

/-- Of the branch below a child that a listing does not name, what is left when it is installed was
stray before. -/
theorem Operation.Installs.stray_of_unlisted (installs : o.Installs c above listing)
    (listed : ∀ e ∈ listing, IsName e.name) (isName : IsName name)
    (unlisted : ∀ e ∈ listing, e.name ≠ name) {path : String} (normal : IsNormal path)
    (node : path ∈ (o.apply c).nodes) (within : isWithin path (join above name)) :
    c.Stray above path := by
  have normalAbove := installs.isNormal
  -- of the children with proper names only one leads to the path
  have only : ∀ e ∈ listing, ¬ isWithin path (join above e.name) := by
    intro e member within'
    exact unlisted e member
      (eq_of_isWithin_join normal normalAbove (listed e member) isName within' within)
  have below := isBelow_of_isWithin_child normal normalAbove isName within
  rw [installs.nodes] at node
  rcases (mem_nodes_install_iff below normalAbove).mp node with ⟨e, member, rfl⟩ | ⟨node, kept⟩
  · exact absurd (isWithin_self _) (only e member)
  · refine ⟨node, below, fun called known within' => ?_⟩
    obtain ⟨e, member, rfl⟩ := kept called known within'
    exact only e member within'

/-- A claim outlasts the listing of a folder further up, fresh until anything else overtakes it. -/
theorem flight?_after_installed (claimed : (c.beginFetch folder).1 = true)
    (kept : ∀ o ∈ earlier ++ later, o.givesBack (normalize folder) = false)
    (installs : o.Installs ((c.beginFetch folder).2.after earlier) above listing)
    (differ : above ≠ normalize folder) :
    ((c.beginFetch folder).2.after (earlier ++ o :: later)).flight? (normalize folder) =
      some ((earlier ++ later).any (Operation.overtakes (normalize folder))) := by
  rw [flight?_after_beginFetch claimed]
  · simp only [List.any_append, List.any_cons, installs.overtakes_eq_false differ, Bool.false_or]
  · intro p member
    rcases List.mem_append.mp member with before | member
    · exact kept p (List.mem_append_left _ before)
    · rcases List.mem_cons.mp member with rfl | after
      · exact installs.givesBack_eq_false differ
      · exact kept p (List.mem_append_right _ after)

/-- Once a listing that is not refused has arrived, its folder and all its entries are known. -/
theorem known_of_finishFetch {arrived : Option (List Entry)}
    (named : Operation.WellNamed (.finishFetch folder arrived))
    (got : (c.finishFetch folder arrived).1 = true) :
    (c.finishFetch folder arrived).2.isLoaded folder ∧ ∃ entries, arrived = some entries ∧
      ∀ e ∈ entries,
        ((c.finishFetch folder arrived).2.get? (join (normalize folder) e.name)).isSome := by
  have normal := isNormal_normalize folder
  cases arrived with
  | none => cases got
  | some entries =>
    have installs : (Operation.finishFetch folder entries).Installs c (normalize folder) entries :=
      ⟨rfl, rfl, got⟩
    have answers := SameAnswers.of_nodes installs.nodes
    refine ⟨(answers.isLoaded folder).trans ?_, entries, rfl, fun e member => ?_⟩
    · rw [isLoaded, childNames?_install_self]
      rfl
    · obtain ⟨d, -, -, found⟩ := exists_entryAt?_install c normal named member
      refine (congrArg Option.isSome (answers.get? _)).trans ?_
      rw [get?_of_isNormal _ (normal.join (named e member)), found]
      rfl

/-- Whatever is done to a cache between the claim on the listing of a folder and its arrival, and
among it a folder further up is listed without the child that leads down: of the whole branch only
what was stray stays cached. But the listing that arrives is refused for other reasons only, as if
nothing had become of the branch. If there are none, the folder is back, and all the entries of its
listing are cached in it. -/
theorem finishFetch_after_dropped {between final : Cache} {arrived : Option (List Entry)}
    {installed : Bool} (claimed : (c.beginFetch folder).1 = true)
    (kept : ∀ o ∈ earlier ++ later, o.givesBack (normalize folder) = false)
    (drop : o.Installs ((c.beginFetch folder).2.after earlier) above listing)
    (listed : ∀ e ∈ listing, IsName e.name) (isName : IsName name)
    (branch : isWithin (normalize folder) (join above name))
    (unlisted : ∀ e ∈ listing, e.name ≠ name) {spelling : String}
    (same : normalize spelling = normalize folder)
    (named : Operation.WellNamed (.finishFetch spelling arrived))
    (ran : (c.beginFetch folder).2.after (earlier ++ o :: later) = between)
    (finished : between.finishFetch spelling arrived = (installed, final)) :
    (∀ path, IsNormal path → isWithin path (join above name) →
      path ∈ ((c.beginFetch folder).2.after (earlier ++ [o])).nodes →
        ((c.beginFetch folder).2.after earlier).Stray above path) ∧
    (installed = false ↔
      arrived = none ∨ ∃ o ∈ earlier ++ later, o.overtakes (normalize folder)) ∧
    (installed = false → between.SameAnswers final) ∧
    (installed = true → final.isLoaded folder ∧ ∃ entries, arrived = some entries ∧
      ∀ e ∈ entries, (final.get? (join (normalize folder) e.name)).isSome) := by
  have normal := isNormal_normalize folder
  have differ : above ≠ normalize folder := by
    rintro rfl
    exact not_isBelow_self normal (isBelow_of_isWithin_child normal normal isName branch)
  have lasts := ran ▸ flight?_after_installed claimed kept drop differ
  have refused := finishFetch_eq_false_iff between spelling arrived
  rw [finished, same, lasts] at refused
  refine ⟨fun path normal' within node => ?_, ?_, fun no => ?_, fun yes => ?_⟩
  · rw [after, List.foldl_append] at node
    exact drop.stray_of_unlisted listed isName unlisted normal' node within
  · rw [refused, ← List.any_eq_true, ne_eq, Option.some.injEq, Bool.not_eq_false]
  · rw [finishFetch_of_stale between spelling
      (by rw [same, lasts]; exact (refused.mp no).symm)] at finished
    cases finished
    exact .of_nodes rfl
  · have known := known_of_finishFetch named (by rw [finished]; exact yes)
    rwa [finished, isLoaded, same, ← isLoaded] at known

/-- While the listing of `/a/d` is on its way, `/a` is listed and has no `d`. A folder of `/a/d` is
forgotten after that, so that the listing is refused. -/
theorem finishFetch_after_dropped_and_overtaken :
    let claimed := (Cache.empty.add ⟨"d", .folder, 1, 0, none⟩ "/a/d").beginFetch "/a/d"
    let drop : Operation := .addChildren "/a" []
    let between := claimed.2.after [drop, .remove "/a/d/x"]
    let finished := between.finishFetch "a/d/" (some [⟨"f", .file, 2, 0, none⟩])
    claimed.1 = true ∧ drop.Installs claimed.2 "/a" [] ∧ IsName "d" ∧ IsName "f" ∧
      isWithin "/a/d" (join "/a" "d") ∧ finished.1 = false ∧ between.SameAnswers finished.2 := by
  intro claimed drop between finished
  have got : claimed.1 = true := by decide +kernel
  have kept : ∀ o ∈ ([] ++ [.remove "/a/d/x"] : List Operation),
      o.givesBack (normalize "/a/d") = false := by decide +kernel
  have installs : drop.Installs (claimed.2.after []) "/a" [] := ⟨by decide +kernel, rfl⟩
  have isName : IsName "d" ∧ IsName "f" := by
    simp only [IsName, IsComponent]
    decide +kernel
  have branch : isWithin (normalize "/a/d") (join "/a" "d") := by decide +kernel
  have named : Operation.WellNamed (.finishFetch "a/d/" (some [⟨"f", .file, 2, 0, none⟩])) :=
    List.forall_mem_singleton.mpr isName.2
  have overtaken : ∃ o ∈ ([] ++ [.remove "/a/d/x"] : List Operation),
      o.overtakes (normalize "/a/d") := by decide +kernel
  obtain ⟨-, refused, dropped, -⟩ := finishFetch_after_dropped got kept installs
    (fun _ member => absurd member List.not_mem_nil) isName.1 branch
    (fun _ member => absurd member List.not_mem_nil) (by decide +kernel) named rfl
    (Prod.eta finished).symm
  have no := refused.mpr (Or.inr overtaken)
  exact ⟨got, installs, isName.1, isName.2, by decide +kernel, no, dropped no⟩

/-- The listing of `/a/d` is on its way when `/a` is listed without `d`, and nothing else is done:
the listing is installed, and a file of it is cached below a folder that has no children. -/
theorem exists_brought_back :
    let claimed := (Cache.empty.add ⟨"d", .folder, 1, 0, none⟩ "/a/d").beginFetch "/a/d"
    let drop : Operation := .addChildren "/a" []
    let finished := (drop.apply claimed.2).finishFetch "/a/d" (some [⟨"f", .file, 2, 0, none⟩])
    claimed.1 = true ∧ drop.Installs claimed.2 "/a" [] ∧ isBelow "/a/d" "/a" ∧
      (drop.apply claimed.2).paths = [] ∧ finished.1 = true ∧
      finished.2.children? "/a" = some [] ∧
      finished.2.get? "/a/d/f" = some ⟨"f", .file, 2, 0, none⟩ := by
  exact ⟨by decide +kernel, ⟨by decide +kernel, rfl⟩, by decide, by decide +kernel,
    by decide +kernel, by decide +kernel, by decide +kernel⟩

end StoreShell.Cache
