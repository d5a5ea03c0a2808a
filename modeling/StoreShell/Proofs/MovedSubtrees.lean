import StoreShell.Proofs.StoreChanges

/-! # Moving a subtree, and moving it back

A store moves a subtree one object at a time and cuts the new path of each from the old one as a text.
`IsTail` are the texts that paths in a folder have more than the folder, so they say which object is
which after a move: the one at `source ++ tail` is found at `target ++ tail`. The move back is
possible if the folder that the subtree was in is one. `place_place` says that it puts each object
where it was, and then only the time of the object that was named tells that anything happened.
-/

namespace StoreShell

open StoreShell.Path

namespace Path

variable {source target path tail : String}

/-- What the path of an object has more than that of a folder that it is or lies in. -/
def IsTail (tail : String) : Prop := tail = "" ∨ ∃ rest, tail = "/" ++ rest

theorem isTail_empty : IsTail "" := Or.inl rfl

/-- A path lies within a folder other than the root if it goes on from it with nothing or with a
slash. -/
theorem isWithin_iff_tail (deep : source ≠ root) :
    isWithin path source ↔ ∃ tail, IsTail tail ∧ path = source ++ tail := by
  rw [isWithin_iff, isBelow, if_neg deep, List.isPrefixOf_iff_prefix]
  constructor
  · rintro (rfl | ⟨rest, text⟩)
    · exact ⟨"", isTail_empty, String.append_empty.symm⟩
    · refine ⟨"/" ++ String.ofList rest, Or.inr ⟨_, rfl⟩, String.toList_inj.mp ?_⟩
      rw [← text]
      simp
  · rintro ⟨tail, rfl | ⟨rest, rfl⟩, rfl⟩
    · exact Or.inl String.append_empty
    · refine Or.inr ⟨rest.toList, ?_⟩
      simp

/-- Of a moved path exactly the tail stays. -/
theorem movedPath_append (source target tail : String) :
    Store.movedPath source target (source ++ tail) = target ++ tail := by
  rw [Store.movedPath, String.toList_append, List.drop_left, String.ofList_toList]

theorem append_eq_self_iff : source ++ tail = source ↔ tail = "" := by
  constructor
  · intro same
    have texts := congrArg String.toList same
    rw [String.toList_append, List.append_right_eq_self] at texts
    exact String.toList_inj.mp texts
  · rintro rfl
    exact String.append_empty

end Path

namespace Store

variable {s s' : Store} {source target path : String} {e : Entry} {o : StoredObject}

namespace CanMove

/-- Nothing is stored where an object is moved to. -/
theorem get?_of_isWithin_target (can : CanMove s source target o) (within : isWithin path target) :
    s.get? path = none :=
  can.sound.get?_of_isWithin can.free can.normal' within

/-- The old place and the new one do not overlap. -/
theorem not_isWithin_target (can : CanMove s source target o) {old : StoredObject}
    (stored : s.get? path = some old) : ¬ isWithin path target := by
  intro within
  rw [can.get?_of_isWithin_target within] at stored
  cases stored

/-- What lies at the target did not lie within what is moved, which cannot go into itself. -/
theorem not_isWithin_source (can : CanMove s source target o) (normal : IsNormal path)
    (within : isWithin path target) : ¬ isWithin path source := by
  intro inside
  rcases isWithin_or_isWithin normal can.normal can.normal' inside within with above | below
  · exact can.not_isWithin_target can.found above
  · rcases isWithin_iff.mp below with rfl | below
    · exact can.not_isWithin_target can.found (isWithin_self target)
    · exact can.outside below

/-- Moving back undoes moving. -/
theorem place_place (can : CanMove s source target o) {old : StoredObject}
    (stored : s.get? path = some old) : place target source (place source target path) = path := by
  by_cases within : isWithin path source
  · rw [place, place, if_pos within, if_pos (can.isNormal_moved stored within).2,
      movedPath_movedPath can.deep within]
  · rw [place, place, if_neg within, if_neg (can.not_isWithin_target stored)]

/-- What a store has in the new place is what it had in the old one. -/
theorem get?_moveAll_append (can : CanMove s source target o) {tail : String} (isTail : IsTail tail) :
    (s.moveAll source target).2.get? (target ++ tail) = (s.get? (source ++ tail)).map
      (movedObject s.clock source target (source ++ tail)) := by
  have within : isWithin (source ++ tail) source :=
    (isWithin_iff_tail can.deep).mpr ⟨tail, isTail, rfl⟩
  have within' : isWithin (target ++ tail) target :=
    (isWithin_iff_tail can.deep').mpr ⟨tail, isTail, rfl⟩
  have there : place source target (source ++ tail) = target ++ tail := by
    rw [place, if_pos within, movedPath_append]
  refine Option.ext fun new => ?_
  rw [can.get?_moveAll_iff, Option.map_eq_some_iff]
  constructor
  · rintro ⟨path, old, stored, placed, made⟩
    have back := can.place_place stored
    rw [placed, place, if_pos within', movedPath_append] at back
    subst back
    exact ⟨old, stored, made⟩
  · rintro ⟨old, stored, made⟩
    exact ⟨source ++ tail, old, stored, there, made⟩

/-- Nothing is left in the old place. -/
theorem get?_moveAll_of_source (can : CanMove s source target o) (within : isWithin path source) :
    (s.moveAll source target).2.get? path = none := by
  refine Option.eq_none_iff_forall_ne_some.mpr fun new found => ?_
  obtain ⟨path', old, stored, rfl, -⟩ := can.get?_moveAll_iff.mp found
  by_cases moved : isWithin path' source
  · rw [place, if_pos moved] at within
    obtain ⟨normal, inside⟩ := can.isNormal_moved stored moved
    exact can.not_isWithin_source normal inside within
  · rw [place, if_neg moved] at within
    exact moved within

/-- Whatever is in neither place stays as it is. -/
theorem get?_moveAll_of_aside (can : CanMove s source target o) (outside : ¬ isWithin path source)
    (outside' : ¬ isWithin path target) :
    (s.moveAll source target).2.get? path = s.get? path := by
  have unchanged : ∀ old, movedObject s.clock source target path old = old := by
    intro old
    refine if_neg ?_
    rintro rfl
    exact outside (isWithin_self path)
  refine Option.ext fun new => ?_
  rw [can.get?_moveAll_iff]
  constructor
  · rintro ⟨path', old, stored, placed, rfl⟩
    by_cases moved : isWithin path' source
    · rw [place, if_pos moved] at placed
      exact absurd (placed ▸ (can.isNormal_moved stored moved).2) outside'
    · rw [place, if_neg moved] at placed
      subst placed
      rw [unchanged, stored]
  · intro stored
    exact ⟨path, new, stored, if_neg outside, unchanged new⟩

/-! ### Moving back -/

/-- What has been moved can be moved back into the folder that it was in. -/
theorem back (can : CanMove s source target o) {folder : String} {above : StoredObject}
    (parent : parent? source = some folder) (stored : s.get? folder = some above)
    (folderly : above.entry.isFolder) :
    CanMove (s.moveAll source target).2 target source (movedObject s.clock source target source o) where
  sound := can.sound'
  normal := can.normal'
  normal' := can.normal
  found := can.get?_moveAll_iff.mpr ⟨source, o, can.found, place_self source target, rfl⟩
  free := can.get?_moveAll_of_source (isWithin_self source)
  outside below := can.not_isWithin_target can.found (isWithin_iff.mpr (Or.inr below))
  folder other same := by
    rw [parent, Option.some.injEq] at same
    subst same
    refine ⟨above, ?_, folderly⟩
    rw [can.get?_moveAll_of_aside _ (can.not_isWithin_target stored), stored]
    intro within
    exact not_isBelow_self can.normal
      ((isBelow_iff_of_parent? can.normal parent can.normal).mpr within)

/-- Only the object that is moved comes to the target itself. -/
theorem place_eq_target_iff (can : CanMove s source target o) {old : StoredObject}
    (stored : s.get? path = some old) : place source target path = target ↔ path = source := by
  constructor
  · intro placed
    have back := can.place_place stored
    rw [placed, place_self] at back
    exact back.symm
  · rintro rfl
    exact place_self path target

/-- An object gets its name back, and only the one that was asked for shows when that was. -/
theorem movedObject_movedObject (can : CanMove s source target o) {old : StoredObject}
    (stored : s.get? path = some old) (time time' : Nat) :
    movedObject time' target source (place source target path)
        (movedObject time source target path old) =
      if path = source then { old with modified := time' } else old := by
  have named := can.sound.named stored
  by_cases itself : path = source
  · subst itself
    rw [movedObject, if_pos ((can.place_eq_target_iff stored).mpr rfl), movedObject, if_pos rfl,
      if_pos rfl, ← named]
  · rw [movedObject, if_neg (itself ∘ (can.place_eq_target_iff stored).mp), movedObject,
      if_neg itself, if_neg itself]

/-- Moved there and back, every object is where it was, and only the one that was moved is stamped
anew. -/
theorem get?_moveAll_moveAll (can : CanMove s source target o) {new : StoredObject}
    (back : CanMove (s.moveAll source target).2 target source new) (path : String) :
    ((s.moveAll source target).2.moveAll target source).2.get? path =
      (s.get? path).map fun old =>
        if path = source then { old with modified := (s.moveAll source target).2.clock } else old := by
  refine Option.ext fun restored => ?_
  rw [back.get?_moveAll_iff, Option.map_eq_some_iff]
  constructor
  · rintro ⟨between, moved, found, placed, made⟩
    obtain ⟨path', old, stored, rfl, rfl⟩ := can.get?_moveAll_iff.mp found
    rw [can.place_place stored] at placed
    subst placed
    rw [can.movedObject_movedObject stored] at made
    exact ⟨old, stored, made⟩
  · rintro ⟨old, stored, made⟩
    refine ⟨place source target path, _, can.get?_moveAll_iff.mpr ⟨path, old, stored, rfl, rfl⟩,
      can.place_place stored, ?_⟩
    rw [can.movedObject_movedObject stored, made]

/-- A store moves whatever it can. -/
theorem rename (can : CanMove s source target o) (writable : s.readOnly = false) :
    s.rename source target =
      .ok ((movedObject s.clock source target source o).entry, (s.moveAll source target).2) := by
  have here : s.objects.contains source := contains_iff.mpr ⟨o, can.found⟩
  have vacant : !s.objects.contains target := by rw [contains_eq_false_iff.mpr can.free, Bool.not_false]
  have outside : !isBelow target source := by simpa using can.outside
  refine Edit.result_eq_ok_iff.mpr ?_
  rw [Edit.rename, normalize_of_isNormal can.normal, normalize_of_isNormal can.normal',
    Edit.apply_checkWritable_bind _ writable, Edit.apply_get_bind, Edit.apply_check_bind _ _ here,
    Edit.apply_check_bind _ _ vacant, Edit.apply_check_bind _ _ outside,
    Edit.apply_checkParent_bind _ can.folder, Edit.apply_bind, Edit.apply_modifyGet]
  dsimp only
  rw [can.told]
  rfl

end CanMove

/-- A move takes the object at each path that goes on from the old place to the path that goes on in
the same way from the new one. It keeps all that is told of it, its content and its times, but for the
object that was named, which gets the name of its new place and a new time. Nothing is left in the old
place and nothing else appears. If the object was in a folder it can be moved back, and then
everything is as before but for its time. -/
theorem rename_moves_subtree (built : s.Built) (normal : normalize source = source)
    (normal' : normalize target = target) (done : s.rename source target = .ok (e, s')) :
    (∀ tail, IsTail tail → s'.get? (target ++ tail) = (s.get? (source ++ tail)).map fun o =>
      if tail = "" then { o with entry.name := fileName target, modified := s.clock } else o) ∧
    (∀ path, isWithin path source → s'.get? path = none) ∧
    (∀ path, ¬ isWithin path source → (∀ tail, IsTail tail → path ≠ target ++ tail) →
      s'.get? path = s.get? path) ∧
    s'.nextId = s.nextId ∧
    ∀ folder above, parent? source = some folder → s.get? folder = some above →
      above.entry.isFolder → ∃ e' s'', s'.rename target source = .ok (e', s'') ∧
        s''.nextId = s.nextId ∧ ∀ path, s''.get? path = (s.get? path).map fun o =>
          if path = source then { o with modified := s'.clock } else o := by
  obtain ⟨writable, o, can, -, rfl⟩ := exists_canMove built.sound done
  rw [normal, normal'] at can ⊢
  obtain ⟨objects, frame⟩ := moveAll_frame s source target
  refine ⟨fun tail isTail => ?_, fun path => can.get?_moveAll_of_source,
    fun path outside outside' => can.get?_moveAll_of_aside outside fun within => ?_, ?_,
    fun folder above parent stored folderly => ?_⟩
  · rw [can.get?_moveAll_append isTail]
    refine congrArg (Option.map · _) (funext fun o => ?_)
    simp only [movedObject, append_eq_self_iff]
  · obtain ⟨tail, isTail, same⟩ := (isWithin_iff_tail can.deep').mp within
    exact outside' tail isTail same
  · rw [frame]
  · have back := can.back parent stored folderly
    have writable' : (s.moveAll source target).2.readOnly = false := by rw [frame, writable]
    obtain ⟨objects', frame'⟩ := moveAll_frame (s.moveAll source target).2 target source
    refine ⟨_, _, back.rename writable', ?_, can.get?_moveAll_moveAll back⟩
    rw [frame', frame]

/-- A folder moves into another one whose name begins like its own, and back again. -/
theorem rename_moves_subtree_beside : ∃ e s' e' s'',
    ((empty.insertFile "/a/f" [1]).insertFile "/ab/g" [2]).rename "/a" "/ab/c" = .ok (e, s') ∧
      s'.rename "/ab/c" "/a" = .ok (e', s'') ∧ s'.get? "/a/f" = none ∧
      s'.get? ("/ab/c" ++ "/f") = some (.file "f" 2 [1] 2) ∧
      s''.get? "/a/f" = some (.file "f" 2 [1] 2) := by
  have stored : ((empty.insertFile "/a/f" [1]).insertFile "/ab/g" [2]).get? ("/a" ++ "/f") =
      some (.file "f" 2 [1] 2) := by decide +kernel
  have succeeds : (((empty.insertFile "/a/f" [1]).insertFile "/ab/g" [2]).rename "/a"
      "/ab/c").isOk := by decide +kernel
  cases done : ((empty.insertFile "/a/f" [1]).insertFile "/ab/g" [2]).rename "/a" "/ab/c" with
  | error failure =>
    rw [done] at succeeds
    cases succeeds
  | ok result =>
    obtain ⟨e, s'⟩ := result
    obtain ⟨moved, gone, -, -, back⟩ := rename_moves_subtree
      ((Built.empty.insertFile "/a/f" [1]).insertFile "/ab/g" [2]) (by decide +kernel)
      (by decide +kernel) done
    obtain ⟨e', s'', done', -, restored⟩ := back "/" (.folder "" 0 0) (by decide +kernel)
      (by decide +kernel) rfl
    refine ⟨e, s', e', s'', rfl, done', gone _ (by decide +kernel), ?_, ?_⟩
    · rw [moved "/f" (Or.inr ⟨"f", rfl⟩), stored]
      rfl
    · exact (restored _).trans (congrArg _ stored)

end Store

end StoreShell
