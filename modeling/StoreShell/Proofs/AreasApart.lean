import StoreShell.Proofs.AreaHistories
import StoreShell.Proofs.Steady

/-! # Storage areas are kept apart

Each cache of a session goes with one remote store, the one that was current together with it. In every
history in which no new store comes while a folder is being made or an object is being moved, a cache
knows nothing but what its store has told, whatever else is under way when the area is switched. So
the current cache never tells anything of another area.

`World.Apart` is the invariant. It is kept by the steps of loyal scripts, by listings in the background
and by switching the area.
-/

namespace StoreShell

open StoreShell.Path

namespace Telling

/-- The remote store that has told something. -/
def remote : Telling → Nat
  | .object remote .. | .listing remote _ => remote

end Telling

section Tellers

variable {pairings : List Pairing} {remote : Nat} (was : WasCurrent pairings remote)

include was

/-- An entry is told by the store that was asked. -/
theorem tellers_ofEntry (path : String) (answer : Except Failure Entry) :
    ∀ t ∈ Telling.ofEntry remote path answer, WasCurrent pairings t.remote := by
  intro t member
  cases answer with
  | error failure => cases member
  | ok e =>
    obtain rfl := List.mem_singleton.mp member
    exact was

/-- A listing is told by the store that was asked, and so are the entries in it. -/
theorem tellers_ofListing (folder : String) (answer : Except Failure (List Entry)) :
    ∀ t ∈ Telling.ofListing remote folder answer, WasCurrent pairings t.remote := by
  intro t member
  cases answer with
  | error failure => cases member
  | ok entries =>
    rcases List.mem_cons.mp member with rfl | member
    · exact was
    · obtain ⟨e, -, rfl⟩ := List.mem_map.mp member
      exact was

end Tellers

namespace Remote

variable {α : Type}

theorem churn_receive (r : Remote) (call : Call) : (r.receive call).2.churn = r.churn := rfl

theorem churn_query (r : Remote) (call : Call) (look : Store → Except Failure α) :
    (r.query call look).2.churn = r.churn := by
  have received := r.churn_receive call
  rw [query]
  split
  · next failure r' refused =>
    rw [refused] at received
    exact received
  · next r' same =>
    rw [same] at received
    exact received

theorem churn_change (r : Remote) (call : Call) (act : Store.Edit α) :
    (r.change call act).2.churn = r.churn := by
  have received := r.churn_receive call
  rw [change]
  split
  · next failure r' refused =>
    rw [refused] at received
    exact received
  · next r' same =>
    rw [same] at received
    exact received

theorem churn_upload (r : Remote) (path : String) (content : Bytes) (append : Bool) :
    (r.upload path content append).2.churn = r.churn := by
  rw [upload]
  split
  · exact r.churn_change _ _
  · exact r.churn_change _ _

end Remote

namespace World

variable {w w' v : World} {pairings : List Pairing} {told news : List Telling} {id : Nat} {c : Cache}

/-! ### Worlds that keep their areas -/

theorem KeepsAreas.refl (w : World) : w.KeepsAreas w := ⟨rfl, rfl, rfl, rfl, id⟩

theorem KeepsAreas.trans (first : w.KeepsAreas w') (next : w'.KeepsAreas v) : w.KeepsAreas v where
  caches := next.caches.trans first.caches
  pairing := next.pairing.trans first.pairing
  background := next.background.trans first.background
  remotes := next.remotes.trans first.remotes
  quiet quiet := next.quiet (first.quiet quiet)

theorem churn_remoteAt (quiet : ∀ r ∈ w.remotes, r.churn = []) (id : Nat) :
    (w.remoteAt id).churn = [] := by
  rw [remoteAt]
  cases found : w.remotes[id]? with
  | none => rfl
  | some r => exact quiet r (List.mem_of_getElem? found)

/-- A store with the churn of before takes the place of a store. -/
theorem keepsAreas_setRemote {r : Remote} (same : r.churn = (w.remoteAt id).churn) :
    w.KeepsAreas (w.setRemote id r) where
  caches := rfl
  pairing := rfl
  background := rfl
  remotes := List.length_set
  quiet quiet other member := by
    rcases List.mem_or_eq_of_mem_set member with old | rfl
    · exact quiet other old
    · exact same.trans (churn_remoteAt quiet id)

theorem keepsAreas_query {α : Type} (w : World) (id : Nat) (call : Call)
    (look : Store → Except Failure α) : w.KeepsAreas (w.onRemote id (·.query call look)).2 :=
  keepsAreas_setRemote (Remote.churn_query _ _ _)

theorem keepsAreas_change {α : Type} (w : World) (id : Nat) (call : Call)
    (act : Store.Edit α) :
    w.KeepsAreas (w.onRemote id (·.change call act)).2 :=
  keepsAreas_setRemote (Remote.churn_change _ _ _)

/-- A listing goes on in a world where nothing happens to a cache meanwhile. -/
theorem keepsAreas_advance (quiet : ∀ r ∈ w.remotes, r.churn = []) (l : Listing) :
    w.KeepsAreas (w.advance l).2 := by
  have answered : ∀ {v : World} answer due, (∀ r ∈ v.remotes, r.churn = []) →
      v.KeepsAreas (v.advanceAnswered l answer due).2 := by
    intro v answer due quiet
    rw [advanceAnswered]
    split
    · rw [arrive_of_churn (churn_remoteAt quiet _)]
      exact .refl v
    · exact .refl v
  have underWay : ∀ {v : World} due, (∀ r ∈ v.remotes, r.churn = []) →
      v.KeepsAreas (v.advanceUnderWay l due).2 := by
    intro v due quiet
    rw [advanceUnderWay]
    split
    · exact answered _ _ quiet
    · exact .refl v
  have called : w.KeepsAreas (w.request l).2 := by
    have received := (w.remoteAt l.remote).churn_receive (.listFolder l.folder)
    rw [request]
    split
    · next failure r refused =>
      rw [refused] at received
      exact keepsAreas_setRemote received
    · next r called =>
      rw [called] at received
      exact keepsAreas_setRemote received
  rw [advance]
  split
  · split
    · next failure v requested =>
      rw [requested] at called
      exact called
    · next v requested =>
      rw [requested] at called
      exact called.trans (underWay _ (called.quiet quiet))
  · exact underWay _ quiet
  · exact answered _ _ quiet

/-! ### The invariant -/

/-- Whether the areas that a world has come through are apart. -/
structure Apart (pairings : List Pairing) (told : List Telling) (w : World) : Prop where
  current : w.pairing ∈ pairings
  /-- A cache goes with one store. -/
  unique : ∀ {p q}, p ∈ pairings → q ∈ pairings → p.cache = q.cache → p = q
  cacheKept : ∀ p ∈ pairings, p.cache < w.caches.length
  remoteKept : ∀ p ∈ pairings, p.remote < w.remotes.length
  /-- A cache knows what its store has told. -/
  caches : ∀ p ∈ pairings, (w.cacheAt p.cache).ToldBy p.remote told
  tellers : ∀ t ∈ told, WasCurrent pairings t.remote
  background : ∀ p ∈ w.background, ⟨p.cache, p.listing.remote⟩ ∈ pairings
  quiet : ∀ r ∈ w.remotes, r.churn = []

variable (apart : w.Apart pairings told)

include apart

/-- Caches stay apart when nothing is done to them and nothing else becomes current. -/
theorem Apart.keepsAreas (keeps : w.KeepsAreas w') : w'.Apart pairings told where
  current := keeps.pairing ▸ apart.current
  unique := apart.unique
  cacheKept := keeps.caches ▸ apart.cacheKept
  remoteKept := keeps.remotes ▸ apart.remoteKept
  caches p member := by
    rw [cacheAt, keeps.caches]
    exact apart.caches p member
  tellers := apart.tellers
  background := keeps.background ▸ apart.background
  quiet := keeps.quiet apart.quiet

/-- A store that was current at some time tells more. -/
theorem Apart.hear (tellers : ∀ t ∈ news, WasCurrent pairings t.remote) :
    w.Apart pairings (news ++ told) where
  current := apart.current
  unique := apart.unique
  cacheKept := apart.cacheKept
  remoteKept := apart.remoteKept
  caches p member := (apart.caches p member).mono (List.subset_append_right ..)
  tellers t member := (List.mem_append.mp member).elim (tellers t) (apart.tellers t)
  background := apart.background
  quiet := apart.quiet

/-- What is current is kept in mind. -/
theorem Apart.remember : w.Apart (w.pairing :: pairings) told := by
  have known : ∀ p ∈ w.pairing :: pairings, p ∈ pairings :=
    List.forall_mem_cons.mpr ⟨apart.current, fun _ => id⟩
  exact {
    current := List.mem_cons_self ..
    unique := fun one other => apart.unique (known _ one) (known _ other)
    cacheKept := fun p member => apart.cacheKept p (known p member)
    remoteKept := fun p member => apart.remoteKept p (known p member)
    caches := fun p member => apart.caches p (known p member)
    tellers := fun t member => (apart.tellers t member).mono (List.subset_cons_self ..)
    background := fun p member => List.mem_cons_of_mem _ (apart.background p member)
    quiet := apart.quiet }

/-- Something happens to a cache that leaves it with what its store has told. -/
theorem Apart.setCache (keeps : ∀ remote, ⟨id, remote⟩ ∈ pairings →
    (w.cacheAt id).ToldBy remote told → c.ToldBy remote told) :
    (w.setCache id c).Apart pairings told where
  current := apart.current
  unique := apart.unique
  cacheKept p member := by
    rw [World.setCache, List.length_set]
    exact apart.cacheKept p member
  remoteKept := apart.remoteKept
  caches p member := by
    by_cases here : id = p.cache
    · subst here
      rw [cacheAt_setCache (apart.cacheKept p member)]
      exact keeps p.remote member (apart.caches p member)
    · have elsewhere : (w.setCache id c).cacheAt p.cache = w.cacheAt p.cache := by
        rw [cacheAt, World.setCache, List.getElem?_set_ne here, cacheAt]
      rw [elsewhere]
      exact apart.caches p member
  tellers := apart.tellers
  background := apart.background
  quiet := apart.quiet

/-- A cache takes note of something that its store has told. -/
theorem Apart.setCache_of_paired {remote : Nat} (paired : ⟨id, remote⟩ ∈ pairings)
    (keeps : (w.cacheAt id).ToldBy remote told → c.ToldBy remote told) :
    (w.setCache id c).Apart pairings told := by
  refine apart.setCache fun other member toldBy => ?_
  cases apart.unique paired member rfl
  exact keeps toldBy

/-- A listing begins in the background, for the current cache and from the current store. -/
theorem Apart.prefetch (folder : String) : (w.prefetch folder).2.Apart pairings told := by
  rw [World.prefetch]
  dsimp only
  split
  · exact apart
  · next c begun =>
    have claims : (w.setCache w.cache c).Apart pairings told :=
      apart.setCache fun _ _ toldBy => by
        have claimed := toldBy.beginFetch (normalize folder)
        rwa [begun] at claimed
    exact { claims with
      background := fun p member => by
        rcases List.mem_append.mp member with old | new
        · exact apart.background p old
        · obtain rfl := List.mem_singleton.mp new
          exact apart.current }

/-- A listing in the background goes on, or reaches the cache that it is for. -/
theorem Apart.runPrefetch {p : Prefetch} (paired : ⟨p.cache, p.listing.remote⟩ ∈ pairings) :
    (w.runPrefetch p).Apart pairings (w.tellings p.listing ++ told) := by
  have keeps := w.keepsAreas_advance apart.quiet p.listing
  rw [World.runPrefetch, World.tellings]
  cases progress : w.advance p.listing with
  | mk result v =>
    rw [progress] at keeps
    have kept := apart.keepsAreas keeps
    cases result with
    | inl l =>
      obtain ⟨stage, rfl⟩ := exists_stage_of_advance progress
      exact { kept with
        background := fun q member => by
          rcases List.mem_append.mp member with old | new
          · exact kept.background q old
          · obtain rfl := List.mem_singleton.mp new
            exact paired }
    | inr answer =>
      have heard := kept.hear (tellers_ofListing ⟨p.cache, paired⟩ p.listing.folder answer)
      refine heard.setCache_of_paired paired fun toldBy => toldBy.finishFetch fun all listed => ?_
      cases answer with
      | error failure => cases listed
      | ok entries =>
        cases listed
        exact List.subset_append_left ..

omit apart in
/-- A listing that goes on in the background does not change what is current. -/
theorem pairing_runPrefetch (quiet : ∀ r ∈ w.remotes, r.churn = []) (p : Prefetch) :
    (w.runPrefetch p).pairing = w.pairing := by
  have keeps := (w.keepsAreas_advance quiet p.listing).pairing
  rw [World.runPrefetch]
  cases progress : w.advance p.listing with
  | mk result v =>
    rw [progress] at keeps
    cases result <;> exact keeps

/-- The area is switched: a new cache goes with the store that is current then. -/
theorem Apart.switchArea (area : Area) {remote : Option Remote} (quiet : ∀ r ∈ remote, r.churn = []) :
    (w.switchArea area remote).Apart ((w.switchArea area remote).pairing :: pairings) told := by
  have caches : (w.switchArea area remote).caches = w.caches ++ [.empty] := by cases remote <;> rfl
  have current : (w.switchArea area remote).cache = w.caches.length := by cases remote <;> rfl
  have background : (w.switchArea area remote).background = w.background := by
    cases remote <;> rfl
  have remotes : (w.switchArea area remote).remotes = w.remotes ++ remote.toList := by
    cases remote with
    | none => exact (List.append_nil _).symm
    | some r => rfl
  have stored : (w.switchArea area remote).remote < (w.remotes ++ remote.toList).length := by
    cases remote with
    | none => exact (List.append_nil w.remotes).symm ▸ apart.remoteKept _ apart.current
    | some r => simp [World.switchArea]
  have fresh : ∀ p ∈ pairings, (w.switchArea area remote).cache ≠ p.cache := fun p member same =>
    Nat.lt_irrefl _ (current ▸ same ▸ apart.cacheKept p member)
  constructor
  · exact List.mem_cons_self ..
  · intro p q one other same
    rcases List.mem_cons.mp one with rfl | one
    · rcases List.mem_cons.mp other with rfl | other
      · rfl
      · exact absurd same (fresh q other)
    · rcases List.mem_cons.mp other with rfl | other
      · exact absurd same.symm (fresh p one)
      · exact apart.unique one other same
  · rw [caches, List.length_append]
    exact List.forall_mem_cons.mpr ⟨by rw [pairing, current]; exact Nat.lt_succ_self _,
      fun p member => Nat.lt_succ_of_lt (apart.cacheKept p member)⟩
  · rw [remotes]
    exact List.forall_mem_cons.mpr ⟨stored, fun p member => by
      rw [List.length_append]
      exact Nat.lt_add_right _ (apart.remoteKept p member)⟩
  · refine List.forall_mem_cons.mpr ⟨?_, fun p member => ?_⟩
    · rw [pairing, cacheAt, caches, current, List.getElem?_concat_length]
      exact Cache.toldBy_of_rootOnly rfl
    · rw [cacheAt, caches, List.getElem?_append_left (apart.cacheKept p member)]
      exact apart.caches p member
  · exact fun t member => (apart.tellers t member).mono (List.subset_cons_self ..)
  · exact fun p member => List.mem_cons_of_mem _ (apart.background p (background ▸ member))
  · rw [remotes]
    intro r member
    rcases List.mem_append.mp member with old | new
    · exact apart.quiet r old
    · exact quiet r (Option.mem_toList.mp new)

/-! ### Requests -/

/-- A request that puts nothing into a cache. -/
theorem Apart.answer_of_isFree {r : Request} (free : r.IsFree pairings) :
    (w.answer r).2.Apart pairings (r.tellings (w.answer r).1 ++ told) := by
  cases r with
  | desk | note | finishFetch | makeFolder | rename => cases free
  | known | matching => exact apart
  | enter | cancel => exact apart.keepsAreas ⟨rfl, rfl, rfl, rfl, id⟩
  | prefetch folder => exact apart.prefetch folder
  | forget id path => exact apart.setCache fun _ _ toldBy => toldBy.remove path
  | forgetStale id path => exact apart.setCache fun _ _ toldBy => toldBy.forgetStale path
  | stat remote path =>
    exact (apart.keepsAreas (w.keepsAreas_query remote _ _)).hear (tellers_ofEntry free path _)
  | read remote path => exact apart.keepsAreas (w.keepsAreas_query remote _ _)
  | upload remote path content append =>
    refine (apart.keepsAreas (keepsAreas_setRemote ?_)).hear (tellers_ofEntry free path _)
    exact Remote.churn_upload _ path content append
  | remove remote path recursive => exact apart.keepsAreas (w.keepsAreas_change remote _ _)

/-- A store changes something for a command. -/
theorem Apart.answer_of_isChange {r : Request} (change : r.IsChange pairings) :
    (w.answer r).2.Apart pairings (r.tellings (w.answer r).1 ++ told) := by
  cases r with
  | makeFolder remote path parents =>
    exact (apart.keepsAreas (w.keepsAreas_change remote _ _)).hear (tellers_ofEntry change path _)
  | rename remote source target =>
    exact (apart.keepsAreas (w.keepsAreas_change remote _ _)).hear (tellers_ofEntry change target _)
  | _ => cases change

omit apart in
/-- No request changes what is current. -/
theorem pairing_answer (w : World) (r : Request) : (w.answer r).2.pairing = w.pairing := by
  cases r with
  | prefetch folder =>
    rw [answer, World.prefetch]
    dsimp only
    split <;> rfl
  | finishFetch =>
    rw [answer_finishFetch]
    rfl
  | _ => rfl

end World

namespace Script

variable {α : Type} {w w' : World} {pairings : List Pairing} {told : List Telling}
  {stays : Option Nat} {s s' : Script α}

/-- A script that waits, and not for a change, does not count on a store to stay the current one. -/
theorem Loyal.of_waits (loyal : Loyal pairings told stays s) (waits : s.mayWait)
    (unchanging : s.awaitsChange = false) : Loyal pairings told none s := by
  cases loyal with
  | relax loyal => exact loyal
  | desk | stay => cases waits
  | @change _ _ _ r _ change =>
    cases r with
    | makeFolder | rename => cases unchanging
    | _ => cases change
  | done => exact .done
  | ask free next => exact .ask free next
  | note paired said next => exact .note paired said next
  | finish paired said next => exact .finish paired said next
  | claim next => exact .claim next
  | list was next => exact .list was next
  | write next => exact .write next
  | flush next => exact .flush next
  | copy next => exact .copy next
  | collect next => exact .collect next
  | saved next => exact .saved next
  | release next => exact .release next
  | hang => exact .hang

/-- Whether a script is loyal while a store is current: if it counts on a store, then on this one. -/
def LoyalAt (remote : Nat) (pairings : List Pairing) (told : List Telling) (s : Script α) : Prop :=
  ∃ stays, (∀ counted ∈ stays, counted = remote) ∧ Loyal pairings told stays s

/-- A script that counts on no store is loyal whichever one is current. -/
theorem Loyal.loyalAt (loyal : Loyal pairings told none s) (remote : Nat) :
    s.LoyalAt remote pairings told :=
  ⟨none, by simp, loyal⟩

theorem LoyalAt.mono {remote : Nat} {more : List Pairing} {further : List Telling}
    (loyal : s.LoyalAt remote pairings told) (known : pairings ⊆ more) (heard : told ⊆ further) :
    s.LoyalAt remote more further :=
  loyal.imp fun _ loyal => ⟨loyal.1, loyal.2.mono known heard⟩

/-- A step of a loyal script keeps the areas apart and leaves the script loyal. -/
theorem LoyalAt.step (loyal : s.LoyalAt w.remote pairings told) (step : Step w s w' s')
    (apart : w.Apart pairings told) :
    w'.pairing = w.pairing ∧ w'.Apart pairings (s.tellings w ++ told) ∧
      s'.LoyalAt w.remote pairings (s.tellings w ++ told) := by
  obtain ⟨stays, counted, loyal⟩ := loyal
  have seen : ∀ {stays told} {t : Script α}, Loyal (w.pairing :: pairings) told stays t →
      Loyal pairings told stays t :=
    fun loyal => loyal.mono (List.cons_subset.mpr ⟨apart.current, .refl _⟩) (.refl _)
  have unchanged : ∀ {t : Script α}, Loyal pairings told none t →
      w.pairing = w.pairing ∧ w.Apart pairings told ∧ t.LoyalAt w.remote pairings told :=
    fun loyal => ⟨rfl, apart, loyal.loyalAt _⟩
  induction loyal with
  | relax _ ih => exact ih step apart (by simp) seen unchanged
  | done | hang => cases step
  | desk rest =>
    cases step
    exact unchanged (seen (rest ⟨w.cwd, w.cache, w.remote, w.settings⟩
      fun remote member => (counted remote member).symm))
  | stay rest =>
    cases step
    exact ⟨rfl, apart, some w.remote, by simp, seen (rest ⟨w.cwd, w.cache, w.remote, w.settings⟩)⟩
  | @change _ _ stays r _ change rest =>
    cases step
    exact ⟨w.pairing_answer r, apart.answer_of_isChange change, stays, counted, rest _⟩
  | @ask _ _ r _ free rest =>
    cases step
    exact ⟨w.pairing_answer r, apart.answer_of_isFree free, (rest _).loyalAt _⟩
  | note paired said rest =>
    cases step
    exact ⟨rfl, apart.setCache_of_paired paired fun toldBy => toldBy.add said, (rest _).loyalAt _⟩
  | finish paired said rest =>
    cases step
    refine ⟨w.pairing_answer _, ?_, (rest _).loyalAt _⟩
    rw [World.answer_finishFetch]
    exact apart.setCache_of_paired paired fun toldBy => toldBy.finishFetch said
  | @claim _ _ cache folder next rest =>
    cases step with
    | @claim _ _ _ _ children claimed =>
      cases children with
      | some children =>
        rw [World.eq_of_claim? claimed]
        exact unchanged (rest _)
      | none =>
        obtain ⟨-, rfl⟩ := World.beginFetch_of_claim? claimed
        exact ⟨rfl, apart.setCache fun _ _ toldBy => toldBy.beginFetch folder, (rest _).loyalAt _⟩
  | @list _ _ l next was rest =>
    have keeps := w.keepsAreas_advance apart.quiet l
    cases step with
    | list goesOn =>
      obtain ⟨stage, rfl⟩ := World.exists_stage_of_advance goesOn
      rw [goesOn] at keeps
      rw [tellings, World.tellings, goesOn]
      refine ⟨keeps.pairing, apart.keepsAreas keeps, Loyal.loyalAt ?_ _⟩
      exact .list was rest
    | listed answered =>
      rw [answered] at keeps
      rw [tellings, World.tellings, answered]
      exact ⟨keeps.pairing, (apart.keepsAreas keeps).hear (tellers_ofListing was _ _),
        (rest _).loyalAt _⟩
  | write rest =>
    cases step with
    | write a => exact unchanged (rest a)
    | writeOn left => exact unchanged (.write rest)
  | flush rest =>
    cases step with
    | flush a => exact unchanged (rest a)
  | copy rest =>
    cases step with
    | copy a => exact unchanged (rest a)
    | copyOn further => exact unchanged (.copy rest)
  | collect rest =>
    cases step with
    | collect a => exact unchanged (rest a)
    | collectOn left further => exact unchanged (.collect rest)
  | saved rest =>
    cases step with
    | saved a => exact unchanged (rest a)
  | release rest =>
    cases step
    exact unchanged rest

end Script

end StoreShell
