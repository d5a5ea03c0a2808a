import StoreShell.Proofs.AreasApart
import StoreShell.Trial

/-! # Switching the storage area

Whatever is under way when the storage area is switched to a new store, it ends in the cache that it
began with. The one exception are `mkdir` and `mv`. They look for the cache only after the store has
made the folder or moved the object, and put what the old store has told into the new cache if the
area is switched meanwhile (`exists_strayed`).
-/

namespace StoreShell

open StoreShell.Path Script

/-- A piece of work is loyal when it begins. -/
theorem Work.Starts.loyal {aliases : List (String × String)} {w : World} {work : Work}
    {pairings : List Pairing} {told : List Telling}
    (starts : work.Starts (.withProbes aliases) pairings w) (current : w.pairing ∈ pairings) :
    Loyal pairings told none work.script := by
  cases starts with
  | preparation p => exact (Prepared.loyal_ofPipeline p).bind fun _ _ _ _ _ => .done
  | command args found =>
    exact (Registry.loyal_withProbes found args).bind fun _ _ _ _ _ => .done
  | closing verdict within =>
    exact (Execution.loyal_closing within verdict).bind fun _ _ _ _ _ => .done
  | children folder => exact (loyal_ensureChildren current folder).bind fun _ _ _ _ _ => .done
  | preload folder depth => exact (loyal_preload current folder depth).bind fun _ _ _ _ _ => .done

/-- A world at the beginning of a session: nothing is known and nothing runs in the background. -/
structure World.Unused (w : World) : Prop where
  cacheKept : w.cache < w.caches.length
  remoteKept : w.remote < w.remotes.length
  cache : w.cacheAt w.cache = .empty
  background : w.background = []
  quiet : ∀ r ∈ w.remotes, r.churn = []

/-- A world that was not used yet has nothing in its caches that could be in the wrong one. -/
theorem World.Unused.apart {w : World} (unused : w.Unused) : w.Apart [w.pairing] [] where
  current := List.mem_singleton_self _
  unique one other _ := (List.mem_singleton.mp one).trans (List.mem_singleton.mp other).symm
  cacheKept := List.forall_mem_singleton.mpr unused.cacheKept
  remoteKept := List.forall_mem_singleton.mpr unused.remoteKept
  caches := by
    refine List.forall_mem_singleton.mpr ?_
    rw [pairing, unused.cache]
    exact Cache.toldBy_of_rootOnly rfl
  tellers := by simp
  background := by simp [unused.background]
  quiet := unused.quiet

namespace Crew

/-- Whether the areas that a crew has come through are apart, and stay so whatever its pieces of work
do. -/
structure Apart (pairings : List Pairing) (told : List Telling) (s : Crew) : Prop
    extends s.world.Apart pairings told where
  loyal : ∀ work ∈ s.works, work.script.LoyalAt s.world.remote pairings told

variable {aliases : List (String × String)} {s t : Crew} {w w' : World} {works works' : List Work}
  {pairings : List Pairing} {told news : List Telling}

/-- Something happens that leaves current what is current. -/
theorem Apart.turn (apart : Apart pairings told ⟨w, works⟩)
    (world : w'.Apart pairings (news ++ told)) (same : w'.pairing = w.pairing)
    (loyal : ∀ work ∈ works', work ∈ works ∨
      work.script.LoyalAt w.remote pairings (news ++ told)) :
    Apart (w'.pairing :: pairings) (news ++ told) ⟨w', works'⟩ where
  toApart := world.remember
  loyal work member := by
    have now : w'.remote = w.remote := congrArg Pairing.remote same
    dsimp only
    rw [now]
    rcases loyal work member with old | new
    · exact (apart.loyal work old).mono (List.subset_cons_self ..) (List.subset_append_right ..)
    · exact new.mono (List.subset_cons_self ..) (List.Subset.refl _)

/-- Whatever happens to a crew, no new store coming while something is changed, the areas stay
apart. -/
theorem Happens.apart (happens : Happens (.withProbes aliases) IsSettled pairings s news t)
    (apart : Apart pairings told s) : Apart (t.world.pairing :: pairings) (news ++ told) t := by
  have among : ∀ {before after : List Work} {work other : Work}, other ∈ before ++ work :: after →
      other ∈ before ++ after ∨ other = work := by
    intro before after work other member
    rcases List.mem_append.mp member with here | later
    · exact Or.inl (List.mem_append_left _ here)
    · exact (List.mem_cons.mp later).symm.imp_left (List.mem_append_right _)
  have still : ∀ {before after : List Work} {work other : Work}, other ∈ before ++ after →
      other ∈ before ++ work :: after :=
    fun member => ((List.sublist_cons_self _ _).append_left _).mem member
  cases happens with
  | @begin w before after work starts =>
    have loyal : work.script.LoyalAt w.remote pairings told :=
      (starts.loyal apart.current).loyalAt w.remote
    refine apart.turn apart.toApart rfl fun other member => ?_
    rcases among member with here | rfl
    · exact Or.inl here
    · exact Or.inr loyal
  | @go w w' before after isCommand s s' step =>
    obtain ⟨same, world, loyal⟩ :=
      (apart.loyal _ List.mem_append_cons_self).step step apart.toApart
    refine apart.turn world same fun other member => ?_
    rcases among member with here | rfl
    · exact Or.inl (still here)
    · exact Or.inr loyal
  | finish => exact apart.turn apart.toApart rfl fun other member => Or.inl (still member)
  | drop => exact apart.turn apart.toApart rfl fun other member => Or.inl (still member)
  | @prefetch w works folder =>
    exact apart.turn (apart.toApart.prefetch folder)
      (w.pairing_answer (.prefetch folder)) fun _ => Or.inl
  | @background w works before p after found =>
    have rest : World.Apart pairings told { w with background := before ++ after } :=
      { apart.toApart with
        background := fun q member => apart.background q
          (found ▸ ((List.sublist_cons_self p after).append_left before).mem member) }
    have paired := apart.background p (found ▸ List.mem_append_cons_self)
    exact apart.turn (rest.runPrefetch paired) (World.pairing_runPrefetch rest.quiet p)
      fun _ => Or.inl
  | @switch w works area remote may quiet =>
    refine ⟨apart.toApart.switchArea area quiet, fun work member => ?_⟩
    have loyal := (apart.loyal work member).mono
      (List.subset_cons_self (w.switchArea area remote).pairing pairings) (List.Subset.refl told)
    cases remote with
    | none => exact loyal
    | some r =>
      -- nothing counts on the old store, as everything waits and nothing is changed
      have settled := may rfl
      obtain ⟨stays, -, loyal⟩ := loyal
      have free := loyal.of_waits (settled.waits work member) (settled.unchanging work member)
      exact free.loyalAt _
  | elsewhere keeps =>
    exact apart.turn (apart.toApart.keepsAreas keeps) keeps.pairing fun _ => Or.inl

/-- By induction on the history: each event is one for which caches stay apart. -/
theorem History.apart {w : World} (unused : w.Unused)
    (history : History (.withProbes aliases) IsSettled ⟨w, []⟩ told pairings s) :
    Apart pairings told s := by
  induction history with
  | start => exact ⟨unused.apart, by simp⟩
  | step _ happens ih => exact happens.apart ih

def slowWorld : World :=
  Trial.start { objects := [("/d", none)], lateDelay := 1 } {} none none

end Crew

end StoreShell
