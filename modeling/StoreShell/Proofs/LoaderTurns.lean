import StoreShell.Proofs.Loaders
import StoreShell.Proofs.Looking

/-! # What stays true of loaders that share a cache

Each turn in a pool is one of four things that happen to one claim (`World.Handles`): the claim is
taken, the listing goes on, the listing is answered, or the claim is given back. So something that is
said of a world and of the claims held in it stays true of a pool if these keep it, and what is done
to the cache and to the store from outside (`Pool.Stable`, `Pool.Keeps.play`).
-/

namespace StoreShell

open StoreShell.Path

section Loads

variable {α : Type} {cache remote : Nat} {known : String → Option (List Entry) → Prop}
  {found : String → Except Failure (List Entry) → Prop} {ends : α → Prop} {folder : String}

open Script

/-! ### Turns -/

/-- What a script gets without listing are the children that the cache knows. -/
theorem World.children?_of_claim? {w w' : World} {children : List Entry}
    (claimed : w.claim? cache folder = some (some children, w')) :
    (w.cacheAt cache).children? folder = some children := by
  rw [claim?] at claimed
  split at claimed
  · next told =>
    cases claimed
    exact told
  · split at claimed <;> cases claimed

theorem Script.not_returned_mem_answers {s : Script α} {w : World} {result} :
    Pool.Event.returned folder result ∉ s.answers w := by
  intro member
  cases s with
  | list l next =>
    rw [answers, World.answersOf] at member
    split at member
    · cases member
    · cases List.mem_singleton.mp member
  | _ => cases member

/-- A script that loads folders goes on by handling its claim, if it does not wait. -/
theorem Script.Loads.turn {c : Claim} {s : Script α} (loads : Loads cache remote known found ends c s)
    {w : World} (knows : ∀ {folder children}, IsNormal folder →
      (w.cacheAt cache).children? folder = some children → known folder (some children))
    (finds : ∀ {folder stage answer w'}, c = .lists folder stage →
      w.advance ⟨remote, folder, stage⟩ = (.inr answer, w') →
      .answered folder answer ∈ s.answers w → found folder answer)
    (tells : ∀ {folder answer}, c = .gives folder answer →
      known folder (w.answer (.finishFetch cache folder answer.toOption)).1) :
    (s.turn w).1 = w ∧ Loads cache remote known found ends c (s.turn w).2 ∨
      ∃ c', w.Handles cache remote c (s.turn w).1 c' ∧
        (∀ folder answer, c' = .gives folder answer → found folder answer) ∧
        Loads cache remote known found ends c' (s.turn w).2 := by
  cases loads with
  | done ended => exact Or.inl ⟨rfl, .done ended⟩
  | @claim folder next normal told rest =>
    rw [Script.turn]
    cases claimed : w.claim? cache folder with
    | none => exact Or.inl ⟨rfl, .claim normal told rest⟩
    | some result =>
      obtain ⟨children, w'⟩ := result
      cases children with
      | some children =>
        refine Or.inl ⟨World.eq_of_claim? claimed, told children ?_⟩
        exact knows normal (World.children?_of_claim? claimed)
      | none =>
        obtain ⟨begun, rfl⟩ := World.beginFetch_of_claim? claimed
        exact Or.inr ⟨_, .begin normal begun, (fun _ _ same => by cases same), rest⟩
  | @list folder stage next rest =>
    rw [Script.turn]
    cases advanced : w.advance ⟨remote, folder, stage⟩ with
    | mk progress w' =>
      cases progress with
      | inl l =>
        obtain ⟨stage', rfl⟩ := World.exists_stage_of_advance advanced
        exact Or.inr ⟨_, .goesOn advanced, (fun _ _ same => by cases same), .list rest⟩
      | inr answer =>
        have here : found folder answer := by
          refine finds rfl advanced ?_
          rw [answers, World.answersOf, advanced]
          exact List.mem_singleton_self _
        refine Or.inr ⟨_, .answered advanced, fun _ _ same => ?_, rest answer here⟩
        cases same
        exact here
  | @finish folder answer next rest =>
    refine Or.inr ⟨.free, ?_, (fun _ _ same => by cases same), rest _ (tells rfl)⟩
    rw [Script.turn, World.answer_finishFetch]
    exact .finish

/-- How a loader stands: with a claim, on its way to what it is to get. -/
def Loader.Loads (cache remote : Nat) (known : String → Option (List Entry) → Prop)
    (found : String → Except Failure (List Entry) → Prop) (c : Claim) : Loader → Prop
  | .children folder s =>
    s.Loads cache remote known found (Obtained known found (normalize folder)) c
  | .preload s => s.Loads cache remote known found (fun _ => True) c

/-- A loader that has its turn ends, or it waits or handles its claim. It returns nothing but what it
can have obtained. -/
theorem Loader.Loads.turn {c : Claim} {l : Loader} (loads : l.Loads cache remote known found c)
    {w : World} (knows : ∀ {folder children}, IsNormal folder →
      (w.cacheAt cache).children? folder = some children → known folder (some children))
    (finds : ∀ {folder stage answer w'}, c = .lists folder stage →
      w.advance ⟨remote, folder, stage⟩ = (.inr answer, w') →
      .answered folder answer ∈ (l.turn w).1 → found folder answer)
    (tells : ∀ {folder answer}, c = .gives folder answer →
      known folder (w.answer (.finishFetch cache folder answer.toOption)).1) :
    ((l.turn w).2 = (w, none) ∧ c = .free ∨ ∃ l', (l.turn w).2.2 = some l' ∧
      ((l.turn w).2.1 = w ∧ l'.Loads cache remote known found c ∨
        ∃ c', w.Handles cache remote c (l.turn w).2.1 c' ∧
          (∀ folder answer, c' = .gives folder answer → found folder answer) ∧
          l'.Loads cache remote known found c')) ∧
      ∀ folder result, .returned folder result ∈ (l.turn w).1 →
        Obtained known found (normalize folder) result := by
  cases l with
  | children folder s =>
    by_cases ended : ∃ result, s = .done result
    · obtain ⟨result, rfl⟩ := ended
      cases loads with
      | done obtained =>
        refine ⟨Or.inl ⟨rfl, rfl⟩, fun _ _ member => ?_⟩
        cases List.mem_singleton.mp member
        exact obtained
    · have goesOn : (Loader.children folder s).turn w =
          (s.answers w, (s.turn w).1, some (.children folder (s.turn w).2)) := by
        cases s with
        | done result => exact absurd ⟨result, rfl⟩ ended
        | _ => rfl
      rw [goesOn] at finds ⊢
      exact ⟨Or.inr ⟨_, rfl, Script.Loads.turn loads knows finds tells⟩,
        fun _ _ member => absurd member Script.not_returned_mem_answers⟩
  | preload s =>
    by_cases ended : ∃ result, s = .done result
    · obtain ⟨result, rfl⟩ := ended
      cases loads with
      | done => exact ⟨Or.inl ⟨rfl, rfl⟩, fun _ _ member => absurd member List.not_mem_nil⟩
    · have goesOn : (Loader.preload s).turn w =
          (s.answers w, (s.turn w).1, some (.preload (s.turn w).2)) := by
        cases s with
        | done result => exact absurd ⟨result, rfl⟩ ended
        | _ => rfl
      rw [goesOn] at finds ⊢
      exact ⟨Or.inr ⟨_, rfl, Script.Loads.turn loads knows finds tells⟩,
        fun _ _ member => absurd member Script.not_returned_mem_answers⟩

/-! ### What stays true -/

/-- Handling a claim leaves alone what is current and what runs in the background. -/
theorem World.Handles.same {w w' : World} {c c' : Claim} (handles : w.Handles cache remote c w' c') :
    w'.cache = w.cache ∧ w'.remote = w.remote ∧ w'.background = w.background := by
  have advanced : ∀ {l : Listing} {progress}, w.advance l = (progress, w') →
      w'.cache = w.cache ∧ w'.remote = w.remote ∧ w'.background = w.background := by
    intro l progress advanced
    have stores := w.keepsStores_advance l
    have marks := w.keepsMarks_advance l
    rw [advanced] at stores marks
    exact ⟨stores.cache, stores.remote, marks.background⟩
  cases handles with
  | begin | finish => exact ⟨rfl, rfl, rfl⟩
  | goesOn here | answered here => exact advanced here

namespace Pool

private theorem eq_take_append_drop {xs : List α} {place : Nat} {x : α}
    (here : xs[place]? = some x) : xs = xs.take place ++ x :: xs.drop (place + 1) := by
  obtain ⟨inside, rfl⟩ := List.getElem?_eq_some_iff.mp here
  rw [List.getElem_cons_drop, List.take_append_drop]

/-- What has to be shown of something that is said of a world and of the claims held in it, so that it
stays true of a pool as long as nothing happens but moves that are allowed, and nothing is seen but
what may be seen. It has to imply what the loaders need. -/
structure Stable (cache remote : Nat) (known : String → Option (List Entry) → Prop)
    (found : String → Except Failure (List Entry) → Prop) (allowed : Move → Prop)
    (seen : Event → Prop) (holds : World → List Claim → Prop) : Prop where
  perm : ∀ {w claims others}, holds w claims → claims.Perm others → holds w others
  free : ∀ {w claims}, holds w (.free :: claims) ↔ holds w claims
  elsewhere : ∀ {w w' claims}, holds w claims → w'.caches = w.caches → w'.remotes = w.remotes →
    holds w' claims
  handles : ∀ {w w' c c' claims}, holds w (c :: claims) → w.Handles cache remote c w' c' →
    (∀ folder answer, c' = .gives folder answer → found folder answer) → holds w' (c' :: claims)
  tells : ∀ {w claims folder children}, holds w claims → IsNormal folder →
    (w.cacheAt cache).children? folder = some children → known folder (some children)
  finds : ∀ {w w' claims folder stage answer}, holds w (.lists folder stage :: claims) →
    w.advance ⟨remote, folder, stage⟩ = (.inr answer, w') → seen (.answered folder answer) →
    found folder answer
  answers : ∀ {w claims folder answer}, holds w (.gives folder answer :: claims) →
    known folder (w.answer (.finishFetch cache folder answer.toOption)).1
  change : ∀ {w claims o}, holds w claims → allowed (.change o) → o.isLocal →
    holds (w.setCache cache (o.apply (w.cacheAt cache))) claims
  disturb : ∀ {w claims faults}, holds w claims →
    holds (w.setRemote remote { w.remoteAt remote with faults }) claims
  replace : ∀ {w claims store}, holds w claims → allowed (.replace store) →
    holds (w.setRemote remote { w.remoteAt remote with store }) claims

/-- How a pool stands: all its loaders and the listings in the background hold their claims on the one
cache and list from the one remote store. -/
structure Keeps (cache remote : Nat) (known : String → Option (List Entry) → Prop)
    (found : String → Except Failure (List Entry) → Prop) (holds : World → List Claim → Prop)
    (s : Pool) : Prop where
  cacheIs : s.world.cache = cache
  remoteIs : s.world.remote = remote
  background : ∀ p ∈ s.world.background, p.cache = cache ∧ p.listing.remote = remote
  loaders : ∃ held : List (Claim × Loader), held.map Prod.snd = s.loaders ∧
    (∀ h ∈ held, h.2.Loads cache remote known found h.1) ∧
    holds s.world (s.world.background.map Prefetch.claim ++ held.map Prod.fst)

variable {allowed : Move → Prop} {seen : Event → Prop} {holds : World → List Claim → Prop} {s : Pool}

/-- A loader begins without a claim. -/
theorem Keeps.begin (stable : Stable cache remote known found allowed seen holds)
    (keeps : s.Keeps cache remote known found holds) {l : Loader}
    (loads : l.Loads cache remote known found .free) :
    Keeps cache remote known found holds { s with loaders := s.loaders ++ [l] } := by
  obtain ⟨held, same, each, held_⟩ := keeps.loaders
  refine ⟨keeps.cacheIs, keeps.remoteIs, keeps.background, held ++ [(.free, l)], ?_, ?_, ?_⟩
  · rw [List.map_append, same]
    rfl
  · intro h member
    rcases List.mem_append.mp member with old | new
    · exact each h old
    · rw [List.mem_singleton.mp new]
      exact loads
  · refine stable.perm (stable.free.mpr held_) ?_
    rw [List.map_append, ← List.append_assoc]
    exact (List.perm_append_singleton _ _).symm

/-- Something happens to the world that has no part in the claims. -/
theorem Keeps.outside (keeps : s.Keeps cache remote known found holds) {w : World}
    (cacheIs : w.cache = s.world.cache) (remoteIs : w.remote = s.world.remote)
    (background : w.background = s.world.background)
    (still : ∀ claims, holds s.world claims → holds w claims) :
    Keeps cache remote known found holds ⟨w, s.loaders⟩ := by
  obtain ⟨held, same, each, this⟩ := keeps.loaders
  refine ⟨cacheIs.trans keeps.cacheIs, remoteIs.trans keeps.remoteIs, ?_, held, same, each, ?_⟩
  · rw [background]
    exact keeps.background
  · rw [background]
    exact still _ this

private theorem Keeps.prefetch (stable : Stable cache remote known found allowed seen holds)
    (keeps : s.Keeps cache remote known found holds) (folder : String) :
    Keeps cache remote known found holds ⟨(s.world.prefetch folder).2, s.loaders⟩ := by
  obtain ⟨w, loaders⟩ := s
  obtain ⟨rfl, rfl, background, held, same, each, this⟩ := keeps
  have normal := isNormal_normalize folder
  simp only [World.prefetch]
  generalize normalize folder = folder at normal
  split
  · exact ⟨rfl, rfl, background, held, same, each, this⟩
  · next c began =>
    have begun : ((w.cacheAt w.cache).beginFetch folder).1 = true := by rw [began]
    have taken : w.Handles w.cache w.remote .free _ _ := .begin normal begun
    rw [began] at taken
    have claimed := stable.handles (stable.free.mpr this) taken fun _ _ same => by cases same
    refine ⟨rfl, rfl, fun p member => ?_, held, same, each, ?_⟩
    · rcases List.mem_append.mp member with old | new
      · exact background p old
      · rw [List.mem_singleton.mp new]
        exact ⟨rfl, rfl⟩
    · refine stable.elsewhere (stable.perm claimed ?_) rfl rfl
      dsimp only
      rw [List.map_append, List.append_assoc]
      exact List.perm_middle.symm

/-- A listing in the background goes on, or it ends and gives its claim back. -/
theorem Keeps.runPrefetch (stable : Stable cache remote known found allowed seen holds)
    (keeps : s.Keeps cache remote known found holds) {before after : List Prefetch} {p : Prefetch}
    (running : s.world.background = before ++ p :: after)
    (seen_ : ∀ e ∈ ({ s.world with background := before ++ after } : World).answersOf p.listing,
      seen e) :
    Keeps cache remote known found holds
      ⟨{ s.world with background := before ++ after }.runPrefetch p, s.loaders⟩ := by
  obtain ⟨w, loaders⟩ := s
  obtain ⟨cacheIs, remoteIs, background, held, same, each, this⟩ := keeps
  dsimp only at *
  obtain ⟨cache', remote', folder, stage⟩ := p
  obtain ⟨rfl, rfl⟩ := background _ (running ▸ List.mem_append_cons_self)
  have others : ∀ q ∈ before ++ after, q.cache = cache' ∧ q.listing.remote = remote' :=
    fun q member => background q (running ▸
      (List.sublist_cons_self _ after).append_left before |>.mem member)
  let v : World := { w with background := before ++ after }
  have start : holds v (.lists folder stage ::
      ((before ++ after).map Prefetch.claim ++ held.map Prod.fst)) := by
    refine stable.elsewhere (stable.perm this ?_) rfl rfl
    rw [running, List.map_append, List.map_cons, List.map_append, List.append_assoc,
      List.append_assoc]
    exact List.perm_middle
  have advanced : ∀ {progress v'}, v.advance ⟨remote', folder, stage⟩ = (progress, v') →
      v'.cache = cache' ∧ v'.remote = remote' ∧ v'.background = before ++ after := by
    intro progress v' advanced
    have stores := v.keepsStores_advance ⟨remote', folder, stage⟩
    have marks := v.keepsMarks_advance ⟨remote', folder, stage⟩
    rw [advanced] at stores marks
    exact ⟨stores.cache.trans cacheIs, stores.remote.trans remoteIs, marks.background⟩
  change Keeps _ _ _ _ _ ⟨v.runPrefetch _, loaders⟩
  rw [World.runPrefetch]
  dsimp only
  cases ended : v.advance ⟨remote', folder, stage⟩ with
  | mk progress v' =>
    obtain ⟨cacheIs, remoteIs, still⟩ := advanced ended
    cases progress with
    | inl l =>
      obtain ⟨stage', rfl⟩ := World.exists_stage_of_advance ended
      have onward := stable.handles start (.goesOn ended) fun _ _ same => by cases same
      refine ⟨cacheIs, remoteIs, fun q member => ?_, held, same, each, ?_⟩
      · dsimp only at member
        rw [still] at member
        rcases List.mem_append.mp member with old | new
        · exact others q old
        · rw [List.mem_singleton.mp new]
          exact ⟨rfl, rfl⟩
      · refine stable.elsewhere (stable.perm onward ?_) rfl rfl
        have split : ∀ q : Prefetch, (before ++ after ++ [q]).map Prefetch.claim =
            (before ++ after).map Prefetch.claim ++ [q.claim] := fun _ => List.map_append
        dsimp only
        rw [still, split, List.append_assoc]
        exact List.perm_middle.symm
    | inr answer =>
      have here : found folder answer := by
        refine stable.finds start ended (seen_ _ ?_)
        change _ ∈ v.answersOf _
        rw [World.answersOf, ended]
        exact List.mem_singleton_self _
      have given := stable.handles start (.answered ended) fun _ _ same => by
        cases same
        exact here
      have back := stable.free.mp (stable.handles given .finish fun _ _ same => by cases same)
      refine ⟨cacheIs, remoteIs, ?_, held, same, each, ?_⟩
      · change ∀ q ∈ v'.background, _
        rw [still]
        exact others
      · change holds _ (v'.background.map _ ++ _)
        rw [still]
        exact back

/-- A loader has its turn. -/
theorem Keeps.turn (stable : Stable cache remote known found allowed seen holds)
    (keeps : s.Keeps cache remote known found holds) {before after : List Loader} {l : Loader}
    (running : s.loaders = before ++ l :: after) (seen_ : ∀ e ∈ (l.turn s.world).1, seen e) :
    Keeps cache remote known found holds
        ⟨(l.turn s.world).2.1, before ++ (l.turn s.world).2.2.toList ++ after⟩ ∧
      ∀ folder result, .returned folder result ∈ (l.turn s.world).1 →
        Obtained known found (normalize folder) result := by
  obtain ⟨w, loaders⟩ := s
  obtain ⟨cacheIs, remoteIs, background, held, same, each, this⟩ := keeps
  dsimp only at *
  obtain ⟨first, rest, rfl, rfl, more⟩ := List.map_eq_append_iff.mp (same.trans running)
  obtain ⟨⟨c, l'⟩, later, rfl, rfl, rfl⟩ := List.map_eq_cons_iff.mp more
  have inFront : holds w (c :: (w.background.map Prefetch.claim ++
      (first.map Prod.fst ++ later.map Prod.fst))) := by
    refine stable.perm this ?_
    rw [List.map_append, List.map_cons, ← List.append_assoc, ← List.append_assoc]
    exact List.perm_middle
  have loads : l'.Loads cache remote known found c := each (c, l') List.mem_append_cons_self
  obtain ⟨turns, returns⟩ := loads.turn
    (fun normal told => stable.tells this normal told)
    (fun is advanced member => stable.finds (is ▸ inFront) advanced (seen_ _ member))
    (fun is => stable.answers (is ▸ inFront))
  refine ⟨?_, returns⟩
  have others : ∀ h ∈ first ++ later, h.2.Loads cache remote known found h.1 := fun h member =>
    each h ((List.sublist_cons_self _ later).append_left first |>.mem member)
  -- the loader goes on with a claim in a world that has the same background
  have goesOn : ∀ {w' c' l''}, (l'.turn w).2.1 = w' → (l'.turn w).2.2 = some l'' →
      l''.Loads cache remote known found c' → w'.cache = w.cache → w'.remote = w.remote →
      w'.background = w.background → holds w' (c' :: (w.background.map Prefetch.claim ++
        (first.map Prod.fst ++ later.map Prod.fst))) →
      Keeps cache remote known found holds ⟨(l'.turn w).2.1,
        first.map Prod.snd ++ (l'.turn w).2.2.toList ++ later.map Prod.snd⟩ := by
    intro w' c' l'' world left loads sameCache sameRemote sameBackground this
    rw [world, left]
    refine ⟨sameCache.trans cacheIs, sameRemote.trans remoteIs, ?_,
      first ++ (c', l'') :: later, ?_, ?_, ?_⟩
    · dsimp only
      rw [sameBackground]
      exact background
    · simp
    · intro h member
      rcases List.mem_append.mp member with old | new
      · exact others h (List.mem_append_left _ old)
      · rcases List.mem_cons.mp new with rfl | old
        · exact loads
        · exact others h (List.mem_append_right _ old)
    · dsimp only
      rw [sameBackground]
      refine stable.perm this ?_
      rw [List.map_append, List.map_cons, ← List.append_assoc, ← List.append_assoc]
      exact List.perm_middle.symm
  rcases turns with ⟨ended, rfl⟩ | ⟨l'', left, ⟨world, loads⟩ | ⟨c', handles, here, loads⟩⟩
  · rw [ended]
    refine ⟨cacheIs, remoteIs, background, first ++ later, by simp, others, ?_⟩
    rw [List.map_append]
    exact stable.free.mp inFront
  · exact goesOn world left loads rfl rfl rfl inFront
  · obtain ⟨sameCache, sameRemote, sameBackground⟩ := handles.same
    exact goesOn rfl left loads sameCache sameRemote sameBackground
      (stable.handles inFront handles here)

/-- Whatever happens to a pool, it stands as before, and loaders return what they can have
obtained. -/
theorem Keeps.move (stable : Stable cache remote known found allowed seen holds)
    (keeps : s.Keeps cache remote known found holds) {m : Move} (allowed_ : allowed m)
    (seen_ : ∀ e ∈ (s.move m).1, seen e) :
    (s.move m).2.Keeps cache remote known found holds ∧
      ∀ folder result, .returned folder result ∈ (s.move m).1 →
        Obtained known found (normalize folder) result := by
  have silent : ∀ {t : Pool}, t.Keeps cache remote known found holds →
      t.Keeps cache remote known found holds ∧ ∀ folder result,
        Event.returned folder result ∈ [] → Obtained known found (normalize folder) result :=
    fun keeps => ⟨keeps, fun _ _ member => absurd member List.not_mem_nil⟩
  cases m with
  | ensure folder =>
    refine silent (keeps.begin stable ?_)
    rw [keeps.cacheIs, keeps.remoteIs]
    exact loads_ensureChildren cache remote folder
  | preload folder depth =>
    refine silent (keeps.begin stable ?_)
    rw [keeps.cacheIs, keeps.remoteIs]
    exact loads_preload cache remote folder depth
  | prefetch folder => exact silent (keeps.prefetch stable folder)
  | turn place =>
    rw [Pool.move] at seen_ ⊢
    cases running : s.loaders[place]? with
    | none => exact silent keeps
    | some l =>
      rw [running] at seen_
      exact keeps.turn stable (eq_take_append_drop running) seen_
  | background place =>
    rw [Pool.move] at seen_ ⊢
    cases running : s.world.background[place]? with
    | none => exact silent keeps
    | some p =>
      rw [running] at seen_
      dsimp only at seen_ ⊢
      rw [List.eraseIdx_eq_take_drop_succ] at seen_ ⊢
      refine ⟨keeps.runPrefetch stable (eq_take_append_drop running) seen_, ?_⟩
      intro folder result member
      rw [World.answersOf] at member
      split at member
      · cases member
      · cases List.mem_singleton.mp member
  | change o =>
    rw [Pool.move]
    split
    · next isLocal =>
      refine silent (keeps.outside rfl rfl rfl fun claims this => ?_)
      rw [keeps.cacheIs]
      exact stable.change this allowed_ isLocal
    · exact silent keeps
  | pass duration =>
    exact silent (keeps.outside rfl rfl rfl fun claims this => stable.elsewhere this rfl rfl)
  | disturb faults =>
    refine silent (keeps.outside rfl rfl rfl fun claims this => ?_)
    rw [keeps.remoteIs]
    exact stable.disturb this
  | replace store =>
    refine silent (keeps.outside rfl rfl rfl fun claims this => ?_)
    rw [keeps.remoteIs]
    exact stable.replace this allowed_

/-- A pool stands as before after any number of moves. -/
theorem Keeps.play (stable : Stable cache remote known found allowed seen holds)
    (keeps : s.Keeps cache remote known found holds) {moves : List Move}
    (allowed_ : ∀ m ∈ moves, allowed m) (seen_ : ∀ e ∈ (s.play moves).1, seen e) :
    (s.play moves).2.Keeps cache remote known found holds ∧
      ∀ folder result, .returned folder result ∈ (s.play moves).1 →
        Obtained known found (normalize folder) result := by
  induction moves generalizing s with
  | nil => exact ⟨keeps, fun _ _ member => absurd member List.not_mem_nil⟩
  | cons m rest ih =>
    obtain ⟨first, later⟩ := List.forall_mem_cons.mp allowed_
    obtain ⟨keeps', returns⟩ := keeps.move stable first fun e member =>
      seen_ e (List.mem_append_left _ member)
    obtain ⟨keeps'', returns'⟩ := ih keeps' later fun e member =>
      seen_ e (List.mem_append_right _ member)
    refine ⟨keeps'', fun folder result member => ?_⟩
    rcases List.mem_append.mp member with now | then_
    · exact returns folder result now
    · exact returns' folder result then_

end Pool

end Loads

end StoreShell
