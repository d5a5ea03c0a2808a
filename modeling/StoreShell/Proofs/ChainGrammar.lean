import StoreShell.Proofs.ChainReading

/-! # The grammar of chains

Which rows of tokens form a chain can be said without reading them: by what lies between the chain
operators, what lies between the `|` there, and where redirections and words stand in each slice.
`Chain.exists_ofTokens_eq_ok_iff` says that exactly these rows are read, whatever their tokens are.
-/

namespace StoreShell

/-- Whether a token is a redirection that takes the word behind it as its file. -/
def Token.takesFile (t : Token) : Bool := t.kind.isRedirect && t.kind ≠ .redirectErrToOut

namespace Segment

/-- Whether each redirection has its file right behind it. -/
def Fed (slice : List Token) : Prop :=
  ∀ before t after, slice = before ++ t :: after → t.takesFile → ∃ file ∈ after.head?, file.isWord

/-- Whether some word is not the file of a redirection. -/
def Named (slice : List Token) : Prop :=
  ∃ before word after, slice = before ++ word :: after ∧ word.isWord ∧
    ∀ t ∈ before.getLast?, ¬ t.takesFile

/-- Whether tokens between two `|` make a command, given where it stands in its pipeline. -/
structure Grammatical (position : Position) (slice : List Token) : Prop where
  fed : Fed slice
  input : (∃ t ∈ slice, t.kind = .redirectIn) → position.isFirst
  output : (∃ t ∈ slice, t.takesFile ∧ t.kind ≠ .redirectIn) → position.isLast
  named : Named slice

variable {t file : Token} {rest tokens : List Token} {position : Position}

/-! ### Redirections and words along a slice -/

theorem not_takesFile_of_isWord (word : t.isWord) : ¬ t.takesFile := by
  rw [Token.isWord, decide_eq_true_eq] at word
  simp [Token.takesFile, word, TokenKind.isRedirect]

theorem fed_nil : Fed [] := fun before t after whole => by simp at whole

/-- A redirection needs a word right behind it. -/
theorem fed_cons : Fed (t :: rest) ↔
    (t.takesFile → ∃ file ∈ rest.head?, file.isWord) ∧ Fed rest := by
  constructor
  · intro fed
    exact ⟨fed [] t rest rfl, fun before other after whole =>
      fed (t :: before) other after (by rw [whole, List.cons_append])⟩
  · rintro ⟨first, fed⟩ before other after whole
    cases before with
    | nil =>
      obtain ⟨rfl, rfl⟩ := List.cons.inj whole
      exact first
    | cons _ before => exact fed before other after (List.cons.inj whole).2

theorem not_named_nil : ¬ Named [] := by
  rintro ⟨before, word, after, whole, -⟩
  simp at whole

theorem named_of_isWord (word : t.isWord) : Named (t :: rest) :=
  ⟨[], t, rest, rfl, word, fun _ member => by cases member⟩

private theorem forall_getLast?_cons {before : List Token} (free : ¬ t.takesFile) :
    (∀ u ∈ (t :: before).getLast?, ¬ u.takesFile) ↔ ∀ u ∈ before.getLast?, ¬ u.takesFile := by
  rw [List.getLast?_cons]
  cases before.getLast? <;> simp [free]

theorem named_cons (word : ¬ t.isWord) (free : ¬ t.takesFile) : Named (t :: rest) ↔ Named rest := by
  constructor
  · rintro ⟨_ | ⟨_, before⟩, name, after, whole, isWord, spared⟩
    · exact absurd ((List.cons.inj whole).1 ▸ isWord) word
    · obtain ⟨rfl, tail⟩ := List.cons.inj whole
      exact ⟨before, name, after, tail, isWord, (forall_getLast?_cons free).mp spared⟩
  · rintro ⟨before, name, after, rfl, isWord, spared⟩
    exact ⟨t :: before, name, after, rfl, isWord, (forall_getLast?_cons free).mpr spared⟩

/-- A file cannot name the command. -/
theorem named_cons_cons (takes : t.takesFile) (isFile : file.isWord) :
    Named (t :: file :: rest) ↔ Named rest := by
  have free := not_takesFile_of_isWord isFile
  constructor
  · rintro ⟨_ | ⟨_, _ | ⟨_, before⟩⟩, name, after, whole, isWord, spared⟩
    · exact absurd takes (not_takesFile_of_isWord ((List.cons.inj whole).1 ▸ isWord))
    · exact absurd ((List.cons.inj whole).1 ▸ takes) (spared _ rfl)
    · obtain ⟨rfl, tail⟩ := List.cons.inj (List.cons.inj whole).2
      rw [List.getLast?_cons_cons, forall_getLast?_cons free] at spared
      exact ⟨before, name, after, tail, isWord, spared⟩
  · rintro ⟨before, name, after, rfl, isWord, spared⟩
    refine ⟨t :: file :: before, name, after, rfl, isWord, ?_⟩
    rw [List.getLast?_cons_cons, forall_getLast?_cons free]
    exact spared

/-! ### Reading a command -/

/-- A redirection may stand where the position lets it. -/
theorem misplaced?_eq_none_iff : misplaced? position t = none ↔
    (t.kind = .redirectIn → position.isFirst) ∧ (t.kind ≠ .redirectIn → position.isLast) := by
  rw [misplaced?]
  split
  · next isInput => cases position.isFirst <;> simp [isInput]
  · next isOutput => cases position.isLast <;> simp [isOutput]

/-- What is neither a word nor `2>&1` takes a file. -/
theorem takesFile_of_ordinary (ordinary : t.isWord ∨ t.kind.isRedirect)
    (word : t.kind = .word → False) (merge : t.kind = .redirectErrToOut → False) : t.takesFile := by
  rw [Token.isWord, decide_eq_true_eq] at ordinary
  have redirect := ordinary.resolve_left word
  rw [Token.takesFile, Bool.and_eq_true, decide_eq_true_eq]
  exact ⟨redirect, merge⟩

/-- The rest of a slice is read if the redirections in it have their files and stand where they may,
and there is a name. -/
theorem exists_read_iff {name : Option String} {s : Segment}
    (ordinary : ∀ t ∈ tokens, t.isWord ∨ t.kind.isRedirect) :
    (∃ s', read position name s tokens = .ok s') ↔
      Fed tokens ∧ (∀ t ∈ tokens, t.takesFile → misplaced? position t = none) ∧
        (name.isSome ∨ Named tokens) := by
  fun_induction read position name s tokens with
  | case1 s name => simpa using fed_nil
  | case2 s => simpa using fun _ => not_named_nil
  | case3 s t rest kind ih =>
    have word : t.isWord := decide_eq_true kind
    have free := not_takesFile_of_isWord word
    rw [ih (List.forall_mem_cons.mp ordinary).2, fed_cons, List.forall_mem_cons]
    simp [free, named_of_isWord word]
  | case4 s t rest kind name ih =>
    have free := not_takesFile_of_isWord (decide_eq_true kind : t.isWord)
    rw [ih (List.forall_mem_cons.mp ordinary).2, fed_cons, List.forall_mem_cons]
    simp [free]
  | case5 name s t rest kind ih =>
    have word : ¬ t.isWord := by simp [Token.isWord, kind]
    have free : ¬ t.takesFile := by simp [Token.takesFile, kind]
    rw [ih (List.forall_mem_cons.mp ordinary).2, fed_cons, List.forall_mem_cons,
      named_cons word free]
    simp [free]
  | case6 name s t rest failure misplaced word merge =>
    have takes := takesFile_of_ordinary (ordinary t (List.mem_cons_self ..)) word merge
    refine iff_of_false (by rintro ⟨s', read⟩; cases read) ?_
    rintro ⟨-, placed, -⟩
    rw [placed t (List.mem_cons_self ..) takes] at misplaced
    cases misplaced
  | case7 name s t placed file rest isFile word merge redirects ih =>
    have takes := takesFile_of_ordinary (ordinary t (List.mem_cons_self ..)) word merge
    have free := not_takesFile_of_isWord isFile
    have later := (List.forall_mem_cons.mp (List.forall_mem_cons.mp ordinary).2).2
    rw [ih later, fed_cons, fed_cons, List.forall_mem_cons, List.forall_mem_cons,
      named_cons_cons takes isFile]
    simp [free, isFile, placed]
  | case8 name s t placed file rest isFile word merge strange =>
    have takes := takesFile_of_ordinary (ordinary t (List.mem_cons_self ..)) word merge
    exact absurd (Bool.and_eq_true_iff.mp takes).1 strange
  | case9 name s t placed file rest isFile word merge =>
    have takes := takesFile_of_ordinary (ordinary t (List.mem_cons_self ..)) word merge
    refine iff_of_false (by rintro ⟨s', read⟩; cases read) ?_
    rintro ⟨fed, -⟩
    obtain ⟨_, first, word⟩ := (fed_cons.mp fed).1 takes
    cases first
    exact isFile word
  | case10 name s t placed word merge =>
    have takes := takesFile_of_ordinary (ordinary t (List.mem_cons_self ..)) word merge
    refine iff_of_false (by rintro ⟨s', read⟩; cases read) ?_
    rintro ⟨fed, -⟩
    obtain ⟨_, first, -⟩ := (fed_cons.mp fed).1 takes
    cases first

/-- Between two `|`, exactly what is grammatical makes a command. -/
theorem exists_ofTokens_iff (ordinary : ∀ t ∈ tokens, t.isWord ∨ t.kind.isRedirect) :
    (∃ s, ofTokens position tokens = .ok s) ↔ Grammatical position tokens := by
  simp only [ofTokens, exists_read_iff ordinary, misplaced?_eq_none_iff, Option.isSome_none,
    Bool.false_eq_true, false_or]
  have takes : ∀ t : Token, t.kind = .redirectIn → t.takesFile := fun t kind => by
    simp [Token.takesFile, kind, TokenKind.isRedirect]
  constructor
  · rintro ⟨fed, placed, named⟩
    exact {
      fed
      input := fun ⟨t, member, kind⟩ => (placed t member (takes t kind)).1 kind
      output := fun ⟨t, member, takes, kind⟩ => (placed t member takes).2 kind
      named }
  · rintro ⟨fed, input, output, named⟩
    exact ⟨fed, fun t member takes =>
      ⟨fun kind => input ⟨t, member, kind⟩, fun kind => output ⟨t, member, takes, kind⟩⟩, named⟩

end Segment

namespace Pipeline

/-- Whether a group splits at `|` into commands. -/
def Grammatical (group : List Token) : Prop :=
  ∀ i slice, (group.splitOnP (·.kind = .pipe))[i]? = some slice → slice ≠ [] ∧
    Segment.Grammatical ⟨i = 0, i + 1 = (group.splitOnP (·.kind = .pipe)).length⟩ slice

variable {group : List Token} {slices : List (List Token)}

/-- Slices are read if each of them is, where it stands. -/
theorem exists_read_iff : (∃ segments, read true slices = .ok segments) ↔
    ∀ i slice, slices[i]? = some slice →
      ∃ s, Segment.ofTokens ⟨i = 0, i + 1 = slices.length⟩ slice = .ok s := by
  simp only [read_eq_mapM, mapM_eq_ok_iff, exists_forall₂_iff, Prod.forall,
    List.mem_zipIdx_iff_getElem?, Bool.true_and]
  exact forall_comm

/-- Between two chain operators and two `|` there are only words and redirections. -/
theorem ordinary_of_mem_splitOnP (plain : ∀ t ∈ group, ¬ t.kind.isChainOperator)
    {slice : List Token} (piece : slice ∈ group.splitOnP (·.kind = .pipe)) :
    ∀ t ∈ slice, t.isWord ∨ t.kind.isRedirect := by
  intro t member
  obtain ⟨inGroup, noPipe⟩ := of_mem_splitOnP piece member
  have noOperator := plain t inGroup
  rw [decide_eq_false_iff_not] at noPipe
  revert noPipe noOperator
  cases kind : t.kind <;>
    simp [Token.isWord, kind, TokenKind.isRedirect, TokenKind.isChainOperator]

/-- Between two chain operators, exactly what is grammatical makes a pipeline. -/
theorem exists_ofTokens_iff (plain : ∀ t ∈ group, ¬ t.kind.isChainOperator) :
    (∃ p, ofTokens group = .ok p) ↔ Grammatical group := by
  rw [ofTokens]
  split
  · next empty =>
    obtain ⟨slice, piece, isEmpty⟩ := List.any_eq_true.mp empty
    obtain ⟨i, found⟩ := List.mem_iff_getElem?.mp piece
    refine iff_of_false (by rintro ⟨p, read⟩; cases read) fun grammatical => ?_
    exact (grammatical i slice found).1 (List.isEmpty_iff.mp isEmpty)
  · next filled =>
    have readable : (∃ p, (read true (group.splitOnP (·.kind = .pipe))).map Pipeline.mk = .ok p) ↔
        ∃ segments, read true (group.splitOnP (·.kind = .pipe)) = .ok segments := by
      cases read true (group.splitOnP (·.kind = .pipe)) <;> simp [Except.map]
    rw [readable, exists_read_iff]
    refine forall₃_congr fun i slice found => ?_
    have piece := List.mem_of_getElem? found
    have nonempty : slice ≠ [] := by
      rintro rfl
      exact filled (List.any_eq_true.mpr ⟨[], piece, rfl⟩)
    rw [Segment.exists_ofTokens_iff (ordinary_of_mem_splitOnP plain piece)]
    exact (and_iff_right nonempty).symm

end Pipeline

namespace Chain

/-- Whether tokens are groups between chain operators, each of them empty or a pipeline. -/
def Grammatical (tokens : List Token) : Prop :=
  ∀ group ∈ tokens.splitOnP (·.kind.isChainOperator), group ≠ [] → Pipeline.Grammatical group

/-- The groups are what lies between the chain operators. -/
theorem map_fst_groups_nil (tokens : List Token) :
    (groups [] tokens).map Prod.fst = tokens.splitOnP (·.kind.isChainOperator) := by
  rw [map_fst_groups]
  cases tokens.splitOnP (·.kind.isChainOperator) <;> rfl

/-- There are no chain operators in a group. -/
theorem plain_of_mem_groups {tokens : List Token} {g : List Token × Connector}
    (member : g ∈ groups [] tokens) : ∀ t ∈ g.1, ¬ t.kind.isChainOperator := by
  intro t inside
  have piece : g.1 ∈ tokens.splitOnP (·.kind.isChainOperator) :=
    map_fst_groups_nil tokens ▸ List.mem_map_of_mem member
  simpa using (of_mem_splitOnP piece inside).2

/-- Exactly the grammatical rows of tokens are read as chains. -/
theorem exists_ofTokens_eq_ok_iff {tokens : List Token} :
    (∃ c, ofTokens tokens = .ok c) ↔ Grammatical tokens := by
  have each : (∃ c, ofTokens tokens = .ok c) ↔
      ∀ g ∈ (groups [] tokens).filter fun g => !g.1.isEmpty, ∃ link, Reads g link := by
    rw [← exists_forall₂_iff]
    simp only [ofTokens_eq_ok_iff]
    exact ⟨fun ⟨_, links, reads, _⟩ => ⟨links, reads⟩, fun ⟨links, reads⟩ => ⟨_, links, reads, rfl⟩⟩
  have link : ∀ g ∈ groups [] tokens, ((∃ link, Reads g link) ↔ Pipeline.Grammatical g.1) := by
    intro g member
    rw [← Pipeline.exists_ofTokens_iff (plain_of_mem_groups member)]
    exact ⟨fun ⟨_, reads⟩ => ⟨_, reads.1⟩, fun ⟨p, reads⟩ => ⟨⟨p, g.2⟩, reads, rfl⟩⟩
  rw [each, Grammatical, ← map_fst_groups_nil, List.forall_mem_map]
  simp only [List.mem_filter, Bool.not_eq_true', and_imp]
  refine forall₂_congr fun g member => ?_
  rw [link g member, List.isEmpty_eq_false_iff]

end Chain

end StoreShell
