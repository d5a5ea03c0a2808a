import StoreShell.Proofs.ChainGrammar
import StoreShell.Proofs.Scanning

/-! # Chains that are printed and read back

A chain can be printed as one line: the name of each command in quotes, then its arguments, then its
redirections. `Chain.ofLine_text` says that reading the line gives back the chain. The texts in it
may be anything, so no text can break out of its word; only the shape of a chain is bound, since a
line cannot say everything that the types of commands and chains have room for.
-/

namespace StoreShell

/-! ### The printer -/

namespace Segment

/-- The tokens of a redirection. Its file is always quoted. -/
def redirection (kind : TokenKind) (symbol path : String) : List Token :=
  [⟨kind, symbol, false⟩, .word path true]

def argTokens (args : List Word) : List Token :=
  args.map fun arg => .word arg.text arg.quoted

def inputTokens : Option String → List Token
  | none => []
  | some path => redirection .redirectIn "<" path

def outputTokens : Option Target → List Token
  | none => []
  | some ⟨path, false⟩ => redirection .redirectOut ">" path
  | some ⟨path, true⟩ => redirection .redirectAppend ">>" path

def errorTokens : Option Target → List Token
  | none => []
  | some ⟨path, false⟩ => redirection .redirectErr "2>" path
  | some ⟨path, true⟩ => redirection .redirectErrAppend "2>>" path

/-- The tokens by which error output follows the output. -/
def mergeTokens : Bool → List Token
  | false => []
  | true => [⟨.redirectErrToOut, "2>&1", false⟩]

def tokens (s : Segment) : List Token :=
  .word s.name true :: (argTokens s.args ++ (inputTokens s.input ++ (outputTokens s.output ++
    (errorTokens s.error ++ mergeTokens s.mergeErr))))

end Segment

def Pipeline.tokens (p : Pipeline) : List Token :=
  [⟨.pipe, "|", false⟩].intercalate (p.segments.map Segment.tokens)

def Connector.tokens : Connector → List Token
  | .last => []
  | .and => [⟨.and, "&&", false⟩]
  | .or => [⟨.or, "||", false⟩]
  | .sequence => [⟨.semicolon, ";", false⟩]

namespace Chain

def tokens (c : Chain) : List Token :=
  c.links.flatMap fun link => link.pipeline.tokens ++ link.connector.tokens

/-- The line that a chain is printed as: its tokens with single spaces between them. -/
def text (c : Chain) : String := " ".intercalate (c.tokens.map Token.written)

example : text ⟨[⟨⟨[{ name := "cat", args := [⟨"it's", true⟩, ⟨"a b", false⟩] }]⟩, .last⟩]⟩ =
    "'cat' 'it'\\''s' \\a\\ \\b" := by
  decide

end Chain

/-! ### Chains that can be printed -/

/-- Whether a command can be printed, given where it stands in its pipeline. -/
structure Segment.Printable (position : Segment.Position) (s : Segment) : Prop where
  args : ∀ arg ∈ s.args, arg.quoted ∨ arg.text ≠ ""
  input : s.input.isSome → position.isFirst
  output : s.output.isSome → position.isLast
  error : s.error.isSome → position.isLast
  merge : s.mergeErr → s.error = none

/-- Whether a pipeline can be printed. -/
structure Pipeline.Printable (p : Pipeline) : Prop where
  nonempty : p.segments ≠ []
  segments : ∀ i (s : Segment), p.segments[i]? = some s →
    s.Printable ⟨i = 0, i + 1 = p.segments.length⟩

/-- Whether a chain can be printed: only its last link has nothing behind it. -/
structure Chain.Printable (c : Chain) : Prop where
  joined : Chain.Joined c.links
  pipelines : ∀ link ∈ c.links, link.pipeline.Printable

/-! ### Reading a printed command -/

namespace Segment

variable {position : Position} {name : Option String} {s : Segment} {rest : List Token}

/-- Behind the name of a command its arguments are read as they are printed. -/
theorem read_argTokens {args : List Word} {n : String} :
    read position (some n) s (argTokens args ++ rest) =
      read position (some n) { s with args := s.args ++ args } rest := by
  induction args generalizing s with
  | nil => simp [argTokens]
  | cons arg args ih =>
    have step : read position (some n) s (argTokens (arg :: args) ++ rest) =
        read position (some n) { s with args := s.args ++ [arg] } (argTokens args ++ rest) := rfl
    rw [step, ih, List.append_assoc, List.singleton_append]

/-- A redirection is read as it is printed where it may stand. -/
theorem read_redirection {kind : TokenKind} {symbol path : String}
    (takes : Token.takesFile ⟨kind, symbol, false⟩)
    (placed : misplaced? position ⟨kind, symbol, false⟩ = none) :
    read position name s (redirection kind symbol path ++ rest) =
      read position name (s.redirect kind path) rest := by
  rw [redirection, List.cons_append, List.singleton_append, read.eq_def]
  dsimp only
  split
  · cases takes
  · cases takes
  · rw [placed]
    exact if_pos (Bool.and_eq_true_iff.mp takes).1

/-- A printed input is read as the input, which only the first command has. -/
theorem read_inputTokens {input : Option String} (placed : input.isSome → position.isFirst)
    (fresh : s.input = none) : read position name s (inputTokens input ++ rest) =
      read position name { s with input } rest := by
  cases input with
  | none => rw [inputTokens, List.nil_append, ← fresh]
  | some path =>
    rw [inputTokens, read_redirection rfl (by simp [misplaced?, placed rfl])]
    rfl

/-- A printed output is read as the output, which only the last command has. -/
theorem read_outputTokens {output : Option Target} (placed : output.isSome → position.isLast)
    (fresh : s.output = none) : read position name s (outputTokens output ++ rest) =
      read position name { s with output } rest := by
  rcases output with _ | ⟨path, _ | _⟩
  · rw [outputTokens, List.nil_append, ← fresh]
  · rw [outputTokens, read_redirection rfl (by simp [misplaced?, placed rfl])]
    rfl
  · rw [outputTokens, read_redirection rfl (by simp [misplaced?, placed rfl])]
    rfl

/-- A redirected error output no longer follows the output, so the merge must come later. -/
theorem read_errorTokens {error : Option Target} (placed : error.isSome → position.isLast)
    (fresh : s.error = none) (apart : s.mergeErr = false) :
    read position name s (errorTokens error ++ rest) =
      read position name { s with error } rest := by
  rcases error with _ | ⟨path, _ | _⟩
  · rw [errorTokens, List.nil_append, ← fresh]
  · rw [errorTokens, read_redirection rfl (by simp [misplaced?, placed rfl]), redirect, ← apart]
  · rw [errorTokens, read_redirection rfl (by simp [misplaced?, placed rfl]), redirect, ← apart]

/-- Error output that follows the output is read as such. -/
theorem read_mergeTokens {mergeErr : Bool} (alone : mergeErr → s.error = none)
    (apart : s.mergeErr = false) : read position name s (mergeTokens mergeErr ++ rest) =
      read position name { s with mergeErr } rest := by
  cases mergeErr with
  | false => rw [mergeTokens, List.nil_append, ← apart]
  | true =>
    have step : read position name s (mergeTokens true ++ rest) =
        read position name { s with mergeErr := true, error := none } rest := rfl
    rw [step, ← alone rfl]

/-- The tokens of a command that can be printed are read as this command. -/
theorem ofTokens_tokens (printable : s.Printable position) :
    ofTokens position s.tokens = .ok s := by
  have named : ofTokens position s.tokens = read position (some s.name) { name := "" }
      (argTokens s.args ++ (inputTokens s.input ++ (outputTokens s.output ++
        (errorTokens s.error ++ (mergeTokens s.mergeErr ++ []))))) := by
    rw [List.append_nil]
    rfl
  rw [named, read_argTokens, read_inputTokens printable.input rfl,
    read_outputTokens printable.output rfl, read_errorTokens printable.error rfl rfl,
    read_mergeTokens ?alone rfl, List.nil_append]
  · rfl
  · exact printable.merge

/-! ### Its tokens -/

/-- All tokens of a redirection can be written. -/
theorem of_mem_redirection {kind : TokenKind} {symbol path : String} {t : Token}
    (listed : (symbol, kind) ∈ Lexer.operators) (redirects : kind.isRedirect)
    (member : t ∈ redirection kind symbol path) : t.Writable ∧ (t.isWord ∨ t.kind.isRedirect) := by
  simp only [redirection, List.mem_cons, List.not_mem_nil, or_false] at member
  rcases member with rfl | rfl
  · exact ⟨.operator listed, .inr redirects⟩
  · exact ⟨.word (.inl rfl), .inl rfl⟩

/-- The tokens of a command can be written, and none of them splits a line. -/
theorem of_mem_tokens {t : Token} (printable : s.Printable position) (member : t ∈ s.tokens) :
    t.Writable ∧ (t.isWord ∨ t.kind.isRedirect) := by
  simp only [tokens, List.mem_cons, List.mem_append] at member
  rcases member with rfl | isArg | isInput | isOutput | isError | isMerge
  · exact ⟨.word (.inl rfl), .inl rfl⟩
  · obtain ⟨arg, among, rfl⟩ := List.mem_map.mp isArg
    exact ⟨.word (printable.args arg among), .inl rfl⟩
  · generalize s.input = input at isInput
    cases input with
    | none => cases isInput
    | some path => exact of_mem_redirection (by decide) rfl isInput
  · generalize s.output = output at isOutput
    rcases output with _ | ⟨path, _ | _⟩
    · cases isOutput
    all_goals exact of_mem_redirection (by decide) rfl isOutput
  · generalize s.error = error at isError
    rcases error with _ | ⟨path, _ | _⟩
    · cases isError
    all_goals exact of_mem_redirection (by decide) rfl isError
  · generalize s.mergeErr = mergeErr at isMerge
    cases mergeErr with
    | false => cases isMerge
    | true =>
      obtain rfl := List.mem_singleton.mp isMerge
      exact ⟨.operator (by decide), .inr rfl⟩

theorem tokens_ne_nil : s.tokens ≠ [] := List.cons_ne_nil _ _

end Segment

/-! ### Reading a printed pipeline -/

namespace Pipeline

variable {p : Pipeline}

/-- All tokens of a printable pipeline can be written, and none of them separates pipelines. -/
theorem of_mem_segments {slice : List Token} {t : Token} (printable : p.Printable)
    (among : slice ∈ p.segments.map Segment.tokens) (inside : t ∈ slice) :
    t.Writable ∧ (t.isWord ∨ t.kind.isRedirect) := by
  obtain ⟨s, segment, rfl⟩ := List.mem_map.mp among
  obtain ⟨i, found⟩ := List.mem_iff_getElem?.mp segment
  exact Segment.of_mem_tokens (printable.segments i s found) inside

/-- The tokens of a pipeline can be written, and none of them splits a chain. -/
theorem of_mem_tokens {t : Token} (printable : p.Printable) (member : t ∈ p.tokens) :
    t.Writable ∧ t.kind.connector? = none := by
  rcases of_mem_intercalate member with rfl | ⟨slice, among, inside⟩
  · exact ⟨.operator (by decide), rfl⟩
  · refine (of_mem_segments printable among inside).imp_right fun ordinary => ?_
    rw [Token.isWord, decide_eq_true_eq] at ordinary
    revert ordinary
    cases t.kind <;> simp [TokenKind.isRedirect, TokenKind.connector?]

/-- The tokens of a pipeline that can be printed are read as this pipeline. -/
theorem ofTokens_tokens (printable : p.Printable) : ofTokens p.tokens = .ok p := by
  have slices : p.tokens.splitOnP (·.kind = .pipe) = p.segments.map Segment.tokens := by
    refine splitOnP_intercalate rfl (by simpa using printable.nonempty) ?_
    intro slice among t inside
    have ordinary := (of_mem_segments printable among inside).2
    rw [decide_eq_false_iff_not]
    intro isPipe
    simp [Token.isWord, isPipe, TokenKind.isRedirect] at ordinary
  have filled : ¬ (p.segments.map Segment.tokens).any List.isEmpty := by
    simp [Segment.tokens_ne_nil]
  have segments : read true (p.segments.map Segment.tokens) = .ok p.segments := by
    rw [read_eq_mapM, mapM_eq_ok_iff, List.forall₂_iff_get]
    refine ⟨by simp, fun i inSlices inSegments => ?_⟩
    have placed := printable.segments i _ (List.getElem?_eq_getElem inSegments)
    simpa using Segment.ofTokens_tokens placed
  simp only [ofTokens, slices, if_neg filled, segments, Except.map]

theorem tokens_ne_nil (printable : p.Printable) : p.tokens ≠ [] := by
  intro none
  have read := ofTokens_tokens printable
  rw [none] at read
  cases read

end Pipeline

/-! ### Reading a printed chain -/

theorem Connector.of_mem_tokens {connector : Connector} {t : Token}
    (member : t ∈ connector.tokens) : t.Writable := by
  cases connector with
  | last => cases member
  | and | or | sequence =>
    obtain rfl := List.mem_singleton.mp member
    exact .operator (by decide)

namespace Chain

variable {c : Chain} {links : List Link}

/-- A chain operator ends the group before it. -/
theorem groups_connector {connector : Connector} {group rest : List Token}
    (operator : connector ≠ .last) :
    groups group (connector.tokens ++ rest) = (group.reverse, connector) :: groups [] rest := by
  cases connector with
  | last => exact absurd rfl operator
  | and | or | sequence => rfl

/-- The groups of a printed chain are its pipelines. -/
theorem groups_tokens (filled : links ≠ []) (joined : Joined links)
    (printable : ∀ link ∈ links, link.pipeline.Printable) :
    groups [] (tokens ⟨links⟩) =
      links.map fun link => (link.pipeline.tokens, link.connector) := by
  induction links with
  | nil => exact absurd rfl filled
  | cons link rest ih =>
    obtain ⟨behind, later⟩ := joined_cons.mp joined
    obtain ⟨first, others⟩ := List.forall_mem_cons.mp printable
    have plain := fun t member => (Pipeline.of_mem_tokens (t := t) first member).2
    have whole : tokens ⟨link :: rest⟩ =
        link.pipeline.tokens ++ (link.connector.tokens ++ tokens ⟨rest⟩) := by
      simp [tokens]
    rw [whole, groups_append plain, List.append_nil, List.map_cons]
    by_cases isLast : link.connector = .last
    · obtain rfl := behind.mp isLast
      simp [isLast, Connector.tokens, tokens, groups]
    · rw [groups_connector isLast, List.reverse_reverse, ih (mt behind.mpr isLast) later others]

/-- The tokens of a chain that can be printed are read as this chain. -/
theorem ofTokens_tokens (printable : c.Printable) : ofTokens c.tokens = .ok c := by
  by_cases filled : c.links = []
  · obtain ⟨links⟩ := c
    subst filled
    rfl
  · refine ofTokens_eq_ok_iff.mpr ⟨c.links, ?_, by rw [closeLast_of_joined printable.joined]⟩
    have kept : (groups [] c.tokens).filter (fun g => !g.1.isEmpty) =
        c.links.map fun link => (link.pipeline.tokens, link.connector) := by
      rw [groups_tokens filled printable.joined printable.pipelines, List.filter_eq_self]
      rintro g member
      obtain ⟨link, among, rfl⟩ := List.mem_map.mp member
      simpa using Pipeline.tokens_ne_nil (printable.pipelines link among)
    rw [kept, List.forall₂_map_left_iff, List.forall₂_same]
    exact fun link among => ⟨Pipeline.ofTokens_tokens (printable.pipelines link among), rfl⟩

/-- A chain that was printed is read back, whatever the texts in it are. -/
theorem ofLine_text (printable : c.Printable) : ofLine c.text = .ok c := by
  have writable : ∀ t ∈ c.tokens, t.Writable := by
    intro t member
    obtain ⟨link, among, inLink⟩ := List.mem_flatMap.mp member
    rcases List.mem_append.mp inLink with inPipeline | behind
    · exact (Pipeline.of_mem_tokens (printable.pipelines link among) inPipeline).1
    · exact Connector.of_mem_tokens behind
  rw [ofLine, text, tokenize_written writable]
  exact ofTokens_tokens printable

/-- Texts that look like operators, quotes and blanks, and empty ones where they are allowed. -/
def lookalikes : Chain :=
  ⟨[⟨⟨[{ name := "'s", args := [⟨"", true⟩, ⟨"2>", false⟩, ⟨"\t'\" \\", true⟩], input := some "<" },
      { name := "", args := [⟨"&& ; |", false⟩], mergeErr := true },
      { name := "\\", output := some ⟨"日本 é", true⟩, error := some ⟨"''", false⟩ }]⟩, .and⟩,
    ⟨⟨[{ name := "||" }]⟩, .sequence⟩,
    ⟨⟨[{ name := " ", output := some ⟨"", false⟩, mergeErr := true }]⟩, .last⟩]⟩

/-- A chain of texts that look like something else is read back as it was. -/
theorem ofLine_text_lookalikes :
    lookalikes.Printable ∧ ofLine lookalikes.text = .ok lookalikes := by
  have printable : lookalikes.Printable := by
    constructor
    · simp [lookalikes, joined_cons, joined_nil]
    · simp only [lookalikes, List.forall_mem_cons, List.not_mem_nil, false_imp_iff, implies_true,
        and_true]
      refine ⟨⟨by decide, ?_⟩, ⟨by decide, ?_⟩, ⟨by decide, ?_⟩⟩
      all_goals
        rintro (_ | _ | _ | i) s found <;> cases found
        all_goals constructor <;> decide
  exact ⟨printable, ofLine_text printable⟩

end Chain

end StoreShell
