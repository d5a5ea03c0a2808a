import StoreShell.Proofs.PipelineSetup
import StoreShell.Proofs.PrintedChains

/-! # Words that are spelled out

A word can be spelled in four ways: as it is, between single quotes, between double quotes, or with
a backslash before each of its characters. `Chain.ofLine_spelled` says that a line of spelled words
is one command with exactly these words, and that all that is left of their spelling is whether they
stood in quotes. That is what the expansion of patterns goes by, so quoted words reach the command
as they are (`Execution.runLine_spelled`), and so do the others unless they look like a pattern: a
backslash does not protect a pattern (`Execution.runLine_escapedStar`).
-/

namespace StoreShell

namespace Lexer

variable {word : Option OpenWord} {w : OpenWord} {c : Char} {text rest reversed : List Char}

/-! ### Between double quotes -/

/-- A character between double quotes. -/
def guardedChar (c : Char) : List Char := if c ∈ escapable then ['\\', c] else [c]

def doubleQuoted (text : List Char) : List Char := '"' :: (text.flatMap guardedChar ++ ['"'])

/-- Reading up to a double quote takes what stands before it, if the quotes in there are guarded. -/
theorem doubleQuoted?_append : doubleQuoted? reversed (text.flatMap guardedChar ++ '"' :: rest) =
    some (text.reverse ++ reversed, rest) := by
  induction text generalizing reversed with
  | nil => rfl
  | cons c text ih =>
    rw [List.flatMap_cons, List.append_assoc, guardedChar]
    split
    · next special =>
      rw [List.cons_append, List.singleton_append, doubleQuoted?, if_pos special, ih]
      simp
    · next ordinary =>
      simp only [escapable, List.mem_cons, List.not_mem_nil, or_false, not_or] at ordinary
      rw [List.singleton_append, doubleQuoted?, ih]
      · simp
      · exact fun quote => ordinary.1 quote
      · exact fun _ _ backslash _ => ordinary.2.1 backslash

/-- What stands between two double quotes is quoted. -/
theorem scan_doubleQuoted : scan word (doubleQuoted text ++ rest) =
    scan (OpenWord.append word text.reverse) rest := by
  have closed : doubleQuoted? [] (text.flatMap guardedChar ++ '"' :: rest) =
      some (text.reverse ++ [], rest) := doubleQuoted?_append
  have whole : doubleQuoted text ++ rest = '"' :: (text.flatMap guardedChar ++ '"' :: rest) := by
    simp [doubleQuoted]
  rw [whole, scan]
  split
  · next unclosed => rw [closed] at unclosed; cases unclosed
  · next found =>
    rw [closed] at found
    cases found
    rw [List.append_nil]

/-! ### As they are -/

/-- Whether a character means nothing but itself wherever it stands. -/
def isOrdinary (c : Char) : Bool :=
  !Text.isBlank c && c ∉ ['\'', '"', '\\', '|', '&', ';', '<', '>']

private theorem head?_tail_of_mem_operators : ∀ o ∈ operators,
    o.1.toList.head?.any isOrdinary → o.1.toList.tail.head? = some '>' := by
  decide

theorem operator?_eq_none {inWord : Bool} (ordinary : isOrdinary c)
    (apart : rest.head? ≠ some '>') : operator? inWord (c :: rest) = none := by
  rw [operator?, List.findSome?_eq_none_iff]
  rintro ⟨symbol, kind⟩ listed
  refine if_neg fun matched => apart ?_
  obtain ⟨first, more, spelled, -⟩ := exists_cons_of_mem_operators listed
  have goesOn := head?_tail_of_mem_operators _ listed
  obtain ⟨behind, whole⟩ :=
    List.isPrefixOf_iff_prefix.mp (Bool.and_eq_true_iff.mp matched).2
  simp only [spelled, List.cons_append, List.cons.injEq] at whole goesOn
  obtain ⟨rfl, rfl⟩ := whole
  have greater : more.head? = some '>' := goesOn ordinary
  rw [List.head?_append, greater]
  rfl

/-- An ordinary character is part of the word that is being read. -/
theorem scan_ordinary (ordinary : isOrdinary c) (apart : rest.head? ≠ some '>') :
    scan word (c :: rest) = scan (OpenWord.push word c) rest := by
  have free : operator? word.isSome (c :: rest) = none := operator?_eq_none ordinary apart
  simp only [isOrdinary, List.mem_cons, List.not_mem_nil, or_false, Bool.and_eq_true,
    Bool.not_eq_true', decide_eq_true_eq, not_or] at ordinary
  obtain ⟨visible, single, double, backslash, -⟩ := ordinary
  rw [scan, if_neg (by rw [visible]; decide)]
  · split
    · next taken =>
      rw [free] at taken
      cases taken
    · rfl
  all_goals simp [single, double, backslash]

private theorem head?_ne_of_ordinary (ordinary : ∀ c ∈ text, isOrdinary c) (ends : Ends rest) :
    (text ++ rest).head? ≠ some '>' := by
  intro greater
  cases text with
  | nil => exact absurd (ends _ greater) (by decide)
  | cons c text =>
    obtain rfl := Option.some.inj greater
    exact absurd (ordinary _ (List.mem_cons_self ..)) (by decide)

/-- Ordinary characters go on with the word that is being read. -/
theorem scan_ordinary_append (ordinary : ∀ c ∈ text, isOrdinary c) (ends : Ends rest) :
    scan (some w) (text ++ rest) =
      scan (some { w with reversed := text.reverse ++ w.reversed }) rest := by
  induction text generalizing w with
  | nil => rfl
  | cons c text ih =>
    obtain ⟨first, later⟩ := List.forall_mem_cons.mp ordinary
    rw [List.cons_append, scan_ordinary first (head?_ne_of_ordinary later ends), OpenWord.push,
      ih later]
    simp

/-- They begin a word if there is none. -/
theorem scan_ordinary_of_ne_nil (filled : text ≠ []) (ordinary : ∀ c ∈ text, isOrdinary c)
    (ends : Ends rest) : scan none (text ++ rest) = scan (some ⟨text.reverse, false⟩) rest := by
  obtain ⟨c, text, rfl⟩ := List.exists_cons_of_ne_nil filled
  obtain ⟨first, later⟩ := List.forall_mem_cons.mp ordinary
  rw [List.cons_append, scan_ordinary first (head?_ne_of_ordinary later ends), OpenWord.push,
    scan_ordinary_append later ends]
  simp

end Lexer

/-! ### Spellings -/

/-- A way of writing a word. -/
inductive Spelling where
  | plain
  | singleQuotes
  | doubleQuotes
  | backslashes
  deriving DecidableEq, Repr

/-- Whether a word that is written in this way stands in quotes. -/
def Spelling.quotes : Spelling → Bool
  | .singleQuotes | .doubleQuotes => true
  | .plain | .backslashes => false

/-- A word with the way in which it is written. -/
structure Spelled where
  way : Spelling
  text : String
  deriving DecidableEq, Repr

namespace Spelled

def written (s : Spelled) : String :=
  match s.way with
  | .plain => s.text
  | .singleQuotes => .ofList (Lexer.singleQuoted s.text.toList)
  | .doubleQuotes => .ofList (Lexer.doubleQuoted s.text.toList)
  | .backslashes => .ofList (Lexer.escaped s.text.toList)

/-- Whether the word can be written in this way. Quotes take any text. -/
def Fits (s : Spelled) : Prop :=
  match s.way with
  | .plain => s.text ≠ "" ∧ s.text.toList.all Lexer.isOrdinary
  | .singleQuotes | .doubleQuotes => True
  | .backslashes => s.text ≠ ""

instance (s : Spelled) : Decidable s.Fits :=
  match s with
  | ⟨.plain, _⟩ => inferInstanceAs (Decidable (_ ∧ _))
  | ⟨.singleQuotes, _⟩ | ⟨.doubleQuotes, _⟩ => isTrue trivial
  | ⟨.backslashes, _⟩ => inferInstanceAs (Decidable (_ ≠ _))

def word (s : Spelled) : Word := ⟨s.text, s.way.quotes⟩

def token (s : Spelled) : Token := .word s.text s.way.quotes

def line (words : List Spelled) : String := " ".intercalate (words.map written)

/-- Every word that can be written in some way is read back as its token. -/
theorem reads_written {s : Spelled} (fits : s.Fits) : Lexer.Reads s.written.toList s.token := by
  intro rest ends
  obtain ⟨way, text⟩ := s
  cases way with
  | plain =>
    obtain ⟨filled, ordinary⟩ := fits
    have filled : text.toList ≠ [] := by simpa using filled
    rw [written, Lexer.scan_ordinary_of_ne_nil filled (List.all_eq_true.mp ordinary) ends,
      Lexer.scan_of_ends ends]
    simp [Lexer.OpenWord.tokens, token, Token.word, Spelling.quotes]
  | singleQuotes =>
    rw [written, String.toList_ofList, Lexer.scan_singleQuoted, Lexer.scan_of_ends ends]
    simp [Lexer.OpenWord.append, Lexer.OpenWord.tokens, token, Token.word, Spelling.quotes]
  | doubleQuotes =>
    rw [written, String.toList_ofList, Lexer.scan_doubleQuoted, Lexer.scan_of_ends ends]
    simp [Lexer.OpenWord.append, Lexer.OpenWord.tokens, token, Token.word, Spelling.quotes]
  | backslashes =>
    have filled : text.toList ≠ [] := by simpa [Fits] using fits
    rw [written, String.toList_ofList, Lexer.scan_escaped_of_ne_nil filled,
      Lexer.scan_of_ends ends]
    simp [Lexer.OpenWord.tokens, token, Token.word, Spelling.quotes]

/-- A line of words is cut into these words. -/
theorem tokenize_line {words : List Spelled} (fit : ∀ s ∈ words, s.Fits) :
    tokenize (line words) = .ok (words.map token) :=
  Lexer.tokenize_of_reads written token fun s member => reads_written (fit s member)

end Spelled

/-! ### Reading a line of words -/

namespace Segment

variable {name : Spelled} {args : List Spelled}

/-- The words of a line make one command. -/
theorem ofTokens_words {position : Position} : ofTokens position ((name :: args).map Spelled.token) =
    .ok { name := name.text, args := args.map Spelled.word } := by
  have named : ofTokens position ((name :: args).map Spelled.token) =
      read position (some name.text) { name := "" } (argTokens (args.map Spelled.word) ++ []) := by
    rw [List.append_nil, argTokens, List.map_map]
    rfl
  rw [named, read_argTokens]
  rfl

end Segment

namespace Chain

variable {name : Spelled} {args : List Spelled}

/-- A line of words is one command. Of the way in which a word is written only this is left: whether
it stood in quotes. -/
theorem ofLine_spelled (fit : ∀ s ∈ name :: args, s.Fits) :
    ofLine (Spelled.line (name :: args)) =
      .ok ⟨[⟨⟨[{ name := name.text, args := args.map Spelled.word }]⟩, .last⟩]⟩ := by
  rw [ofLine, Spelled.tokenize_line fit]
  generalize whole : (name :: args).map Spelled.token = tokens
  have isWord : ∀ t ∈ tokens, t.kind = .word := by
    rw [← whole]
    simp [Spelled.token, Token.word]
  have filled : tokens ≠ [] := by simp [← whole]
  have groups : groups [] tokens = [(tokens, .last)] := by
    have plain : ∀ t ∈ tokens, t.kind.connector? = none := fun t member => by
      rw [isWord t member]
      rfl
    rw [← List.append_nil tokens, groups_append plain]
    simp [Chain.groups]
  have slices : tokens.splitOnP (·.kind = .pipe) = [tokens] :=
    List.splitOnP_eq_singleton fun t member => by simp [isWord t member]
  have pipeline : Pipeline.ofTokens tokens =
      .ok ⟨[{ name := name.text, args := args.map Spelled.word }]⟩ := by
    have segment : Segment.ofTokens ⟨true, true⟩ ((name :: args).map Spelled.token) =
        .ok { name := name.text, args := args.map Spelled.word } := Segment.ofTokens_words
    rw [whole] at segment
    have read : Pipeline.read true [tokens] =
        .ok [{ name := name.text, args := args.map Spelled.word }] := by
      rw [Pipeline.read, List.isEmpty_nil, segment]
      rfl
    simp [Pipeline.ofTokens, slices, read, filled, Except.map]
  refine ofTokens_eq_ok_iff.mpr
    ⟨[⟨⟨[{ name := name.text, args := args.map Spelled.word }]⟩, .last⟩], ?_, rfl⟩
  have kept : ([(tokens, .last)] : List (List Token × Connector)).filter (fun g => !g.1.isEmpty) =
      [(tokens, .last)] := by simp [filled]
  rw [groups, kept]
  exact .cons ⟨pipeline, rfl⟩ .nil

end Chain

/-! ### Running a line of words -/

/-- Whether a word is taken as it is: if it stood in quotes or does not look like a pattern. -/
def Spelled.Literal (s : Spelled) : Prop :=
  s.way.quotes ∨ Glob.isPattern s.text = false ∨ Glob.isExtended s.text

instance (s : Spelled) : Decidable s.Literal := inferInstanceAs (Decidable (_ ∨ _ ∨ _))

/-- Arguments that are not to be expanded stay as they are, and nobody is asked. -/
theorem Glob.expand_of_unexpanded {site : Site} {words : List Word}
    (literal : ∀ word ∈ words, isExpanded site word = false) :
    expand site words = pure (words.map Word.text) := by
  induction words with
  | nil => rfl
  | cons word rest ih =>
    obtain ⟨first, later⟩ := List.forall_mem_cons.mp literal
    rw [expand, first, ih later]
    rfl

namespace Execution

variable {r : Registry} {stage : Stage} {command : Command}

/-- A command that is neither redirected nor has a pattern among its arguments starts where its line
did. -/
theorem runPipeline_of_unexpanded {s : Segment} (known : r.get? s.name = some command)
    (direct : s.hasRedirects = false)
    (literal : ∀ word ∈ s.args, Glob.isExpanded stage.world.site word = false) :
    runPipeline r ⟨[s]⟩ stage = runAlone [] ⟨s.name, command (s.args.map Word.text),
      ⟨⟨.caller .out, .caller .err⟩, []⟩⟩ (forgetSaved stage) := by
  obtain ⟨name, args, input, output, error, mergeErr⟩ := s
  simp only [Segment.hasRedirects, Bool.or_eq_false_iff, Option.isSome_eq_false_iff,
    Option.isNone_iff_eq_none] at direct
  obtain ⟨⟨⟨rfl, rfl⟩, rfl⟩, rfl⟩ := direct
  have expanded : Prepared.expandAll stage.world.site [{ name, args }] =
      pure [args.map Word.text] := by
    rw [Prepared.expandAll, Glob.expand_of_unexpanded literal]
    rfl
  have prepares : runTask (Prepared.ofPipeline ⟨[{ name, args }]⟩) stage =
      some (.ok ⟨[], none, none, [args.map Word.text]⟩, stage) := by
    change (stage.world.run? (Task.toScript do
      let args ← Prepared.expandAll stage.world.site [{ name, args }]
      return (⟨[], none, none, args⟩ : Prepared))).map _ = _
    rw [expanded]
    rfl
  have found : lookUp r [{ name, args }] = .ok [command] := by
    rw [lookUp, known]
    rfl
  rw [runPipeline, List.isEmpty_cons, found]
  change (runTask (Prepared.ofPipeline ⟨[{ name, args }]⟩) stage).bind _ = _
  rw [prepares]
  rfl

/-- A line of one pipeline is that pipeline, and its caller is flushed. -/
theorem runLineChain_singleton {p : Pipeline} (live : stage.world.cancelled = false) :
    runLineChain r ⟨[⟨p, .last⟩]⟩ stage = (runPipeline r p stage).map fun (verdict, after) =>
      (flushCallers after.outlets verdict, after) := by
  change ((if stage.world.cancelled then pure (.error .cancelled) else
    do runLinks _ _ (← runPipeline r p) .last [] : OnStage Verdict) stage).bind _ = _
  rw [live]
  change ((runPipeline r p stage).bind _).bind _ = _
  cases runPipeline r p stage <;> rfl

/-- A line of words that are taken as they are hands the command exactly these words. It starts in
the world that the line started in, so no folder was listed before. -/
theorem runLine_spelled {name : Spelled} {args : List Spelled}
    (fit : ∀ s ∈ name :: args, s.Fits) (known : r.get? name.text = some command)
    (apart : stage.world.settings.expandQuoted = false) (live : stage.world.cancelled = false)
    (literal : ∀ s ∈ args, s.Literal) :
    runLine r (Spelled.line (name :: args)) stage =
      (runAlone [] ⟨name.text, command (args.map Spelled.text),
        ⟨⟨.caller .out, .caller .err⟩, []⟩⟩ (forgetSaved stage)).map fun (verdict, after) =>
          (flushCallers after.outlets verdict, after) := by
  have unexpanded : ∀ word ∈ args.map Spelled.word,
      Glob.isExpanded stage.world.site word = false := by
    intro word member
    obtain ⟨s, among, rfl⟩ := List.mem_map.mp member
    rcases literal s among with quoted | other | extended
    · simp [Glob.isExpanded, Spelled.word, quoted, World.site, apart]
    · simp [Glob.isExpanded, Spelled.word, other]
    · simp [Glob.isExpanded, Spelled.word, extended]
  have runs : runPipeline r ⟨[{ name := name.text, args := args.map Spelled.word }]⟩ stage = _ :=
    runPipeline_of_unexpanded known rfl unexpanded
  rw [List.map_map] at runs
  rw [runLine, Chain.ofLine_spelled fit]
  exact (runLineChain_singleton live).trans (congrArg _ runs)

def singleFileStage : Stage where
  world := Trial.start { objects := [("/f", some [])] } {} none none
  outlets := .willing

/-- What a run told its caller, and which calls reached the store. -/
def shown (ran : Option (Verdict × Stage)) : Option (Bytes × List Call) :=
  ran.map fun (_, after) =>
    (after.outlets.callers.out.received.bytes, (after.world.remoteAt 0).calls)

/-- Words in each of the spellings, with patterns, quotes and operators in them. -/
def manySpellings : List Spelled :=
  [⟨.singleQuotes, "it's *"⟩, ⟨.doubleQuotes, "[a] \"$`\\"⟩, ⟨.backslashes, "x | y"⟩,
    ⟨.doubleQuotes, ""⟩, ⟨.plain, "-"⟩]

/-- Words in every spelling reach the command as they were meant. -/
theorem runLine_manySpellings :
    (∀ s ∈ ⟨.plain, "echo"⟩ :: manySpellings, s.Fits) ∧ (∀ s ∈ manySpellings, s.Literal) ∧
      shown (runLine .standard (Spelled.line (⟨.plain, "echo"⟩ :: manySpellings)) singleFileStage) =
        some (Text.Utf8.encode "it's * [a] \"$`\\ x | y  -\n", []) := by
  have fit : ∀ s ∈ ⟨.plain, "echo"⟩ :: manySpellings, s.Fits := by decide
  have literal : ∀ s ∈ manySpellings, s.Literal := by decide
  have known : Registry.standard.get? "echo" = some Command.echo := by
    simp [Registry.get?, Registry.standard, Registry.insertMany, Std.TreeMap.getElem_insert]
  refine ⟨fit, literal, ?_⟩
  rw [runLine_spelled fit known rfl rfl literal]
  decide +kernel

def escapedStar : List Spelled := [⟨.plain, "echo"⟩, ⟨.backslashes, "*"⟩]

/-- A backslash does not protect a star: it is taken for a pattern, the root is listed, and `echo`
gets the name of the file. -/
theorem runLine_escapedStar :
    shown (runLine .standard (Spelled.line escapedStar) singleFileStage) =
        some (Text.Utf8.encode "f\n", [.listFolder "/"]) := by
  decide +kernel

end Execution

end StoreShell
