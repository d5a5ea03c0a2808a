import Mathlib.Data.List.Infix
import StoreShell.Proofs.ChainGrammar

/-! # What commands are read from

A command is read from a slice of tokens in which words and redirections may stand in any order and
any number. What it becomes can be said by looking at the slice as a whole: its name and arguments
are the words that no redirection takes as its file, and of the redirections that concern the same
stream the last one alone counts. `Chain.wellFormed_of_ofTokens` says so of all commands of a chain.
-/

namespace StoreShell

namespace Segment

/-! ### A slice as a whole -/

/-- The words of a slice that are not the file of a redirection right before them, given what stands
before the slice. -/
def wordsBehind (before : Option Token) (slice : List Token) : List Token :=
  ((slice.zip (before :: slice.map some)).filter fun pair =>
    pair.1.isWord && !pair.2.any Token.takesFile).map Prod.fst

/-- The words of a slice that are not the file of a redirection. -/
def ownWords (slice : List Token) : List Token := wordsBehind none slice

/-- The last token of a slice that is of one of some kinds: its kind, and the text behind it. -/
def lastAmong (kinds : List TokenKind) (slice : List Token) : Option (TokenKind × String) :=
  (slice.tails.filterMap fun
    | [] => none
    | t :: behind =>
      if t.kind ∈ kinds then some (t.kind, (behind.head?.map Token.text).getD "") else none).getLast?

def outputKinds : List TokenKind := [.redirectOut, .redirectAppend, .redirectAll]

def errorKinds : List TokenKind :=
  [.redirectErr, .redirectErrAppend, .redirectErrToOut, .redirectAll]

/-- The file for the error output that a redirection names, if it names one for it alone. -/
def errorTarget? (kind : TokenKind) (path : String) : Option Target :=
  match kind with
  | .redirectErr => some ⟨path, false⟩
  | .redirectErrAppend => some ⟨path, true⟩
  | _ => none

/-- Whether a redirection has the error output follow the output. -/
def merges (kind : TokenKind) : Bool := kind = .redirectErrToOut || kind = .redirectAll

/-- Whether a command is what a slice says. -/
structure ReadFrom (slice : List Token) (s : Segment) : Prop where
  fed : Fed slice
  name : (ownWords slice).head?.map Token.text = some s.name
  args : s.args = (ownWords slice).tail.map fun t => ⟨t.text, t.quoted⟩
  input : s.input = (lastAmong [.redirectIn] slice).map Prod.snd
  output : s.output = (lastAmong outputKinds slice).map fun (kind, path) =>
    ⟨path, kind = .redirectAppend⟩
  error : s.error = (lastAmong errorKinds slice).bind fun (kind, path) => errorTarget? kind path
  mergeErr : s.mergeErr = (lastAmong errorKinds slice).any fun (kind, _) => merges kind

variable {t file : Token} {rest tokens slice : List Token} {kinds : List TokenKind}
  {before : Option Token} {position : Position} {s s' : Segment}

/-- A word counts unless a redirection stands right before it. -/
theorem wordsBehind_cons : wordsBehind before (t :: rest) =
    (if t.isWord && !before.any Token.takesFile then [t] else []) ++ wordsBehind (some t) rest := by
  rw [wordsBehind, List.map_cons, List.zip_cons_cons, List.filter_cons, wordsBehind]
  split <;> rfl

/-- What stands before a slice matters only if it takes a file. -/
theorem wordsBehind_of_free (free : ¬ t.takesFile) :
    wordsBehind (some t) rest = ownWords rest := by
  cases rest with
  | nil => rfl
  | cons u rest => simp [ownWords, wordsBehind_cons, free]

theorem ownWords_word (word : t.isWord) : ownWords (t :: rest) = t :: ownWords rest := by
  rw [ownWords, wordsBehind_cons, wordsBehind_of_free (not_takesFile_of_isWord word), word]
  rfl

theorem ownWords_free (word : ¬ t.isWord) (free : ¬ t.takesFile) :
    ownWords (t :: rest) = ownWords rest := by
  rw [ownWords, wordsBehind_cons, wordsBehind_of_free free, Bool.eq_false_iff.mpr word]
  rfl

/-- The word behind a redirection is its file and no word of the command. -/
theorem ownWords_file (takes : t.takesFile) (isFile : file.isWord) :
    ownWords (t :: file :: rest) = ownWords rest := by
  have word : t.isWord = false :=
    Bool.eq_false_iff.mpr fun word => not_takesFile_of_isWord word takes
  rw [ownWords, wordsBehind_cons, wordsBehind_cons,
    wordsBehind_of_free (not_takesFile_of_isWord isFile), word, Option.any_some, takes, isFile]
  rfl

/-- A token counts if no later one does. -/
theorem lastAmong_cons : lastAmong kinds (t :: rest) = (lastAmong kinds rest).or
    (if t.kind ∈ kinds then some (t.kind, (rest.head?.map Token.text).getD "") else none) := by
  rw [lastAmong, List.tails_cons, List.filterMap_cons]
  dsimp only
  split_ifs with among
  · rw [List.getLast?_cons]
    cases later : lastAmong kinds rest with
    | none => rw [lastAmong] at later; rw [later]; rfl
    | some found => rw [lastAmong] at later; rw [later]; rfl
  · rw [Option.or_none]
    rfl

theorem lastAmong_cons_of_notMem (other : t.kind ∉ kinds) :
    lastAmong kinds (t :: rest) = lastAmong kinds rest := by
  rw [lastAmong_cons, if_neg other, Option.or_none]

/-- What counts stands in the slice. -/
theorem exists_of_lastAmong {found : TokenKind × String} (last : lastAmong kinds slice = some found) :
    ∃ t ∈ slice, t.kind = found.1 ∧ t.kind ∈ kinds := by
  induction slice with
  | nil => cases last
  | cons t rest ih =>
    rw [lastAmong_cons, Option.or_eq_some_iff] at last
    rcases last with later | ⟨-, here⟩
    · obtain ⟨u, member, same⟩ := ih later
      exact ⟨u, List.mem_cons_of_mem _ member, same⟩
    · split_ifs at here with among
      cases here
      exact ⟨t, List.mem_cons_self .., rfl, among⟩

/-! ### Reading along a slice -/

/-- What a command becomes that is read on, whatever was read of it before. -/
structure ReadOn (name : Option String) (s : Segment) (tokens : List Token) (s' : Segment) :
    Prop where
  fed : Fed tokens
  called : name.or ((ownWords tokens).head?.map Token.text) = some s'.name
  args : s'.args = s.args ++
    ((ownWords tokens).drop (if name.isSome then 0 else 1)).map fun t => ⟨t.text, t.quoted⟩
  input : s'.input = ((lastAmong [.redirectIn] tokens).map Prod.snd).or s.input
  output : s'.output = ((lastAmong outputKinds tokens).map fun (kind, path) =>
    (⟨path, kind = .redirectAppend⟩ : Target)).or s.output
  error : s'.error = (lastAmong errorKinds tokens).elim s.error fun (kind, path) =>
    errorTarget? kind path
  mergeErr : s'.mergeErr = (lastAmong errorKinds tokens).elim s.mergeErr fun (kind, _) =>
    merges kind

variable {name : Option String}

/-- Words decide about no stream. -/
theorem lastAmong_word (word : t.isWord) (rest : List Token) :
    lastAmong [.redirectIn] (t :: rest) = lastAmong [.redirectIn] rest ∧
      lastAmong outputKinds (t :: rest) = lastAmong outputKinds rest ∧
      lastAmong errorKinds (t :: rest) = lastAmong errorKinds rest := by
  rw [Token.isWord, decide_eq_true_eq] at word
  refine ⟨?_, ?_, ?_⟩ <;> exact lastAmong_cons_of_notMem (by rw [word]; decide)

private theorem readOn_nil {called : String} : ReadOn (some called) s [] { s with name := called } :=
  ⟨fed_nil, rfl, (List.append_nil _).symm, rfl, rfl, rfl, rfl⟩

/-- The first word of its own is the name. -/
theorem ReadOn.cons_name (word : t.isWord) (later : ReadOn (some t.text) s rest s') :
    ReadOn none s (t :: rest) s' := by
  obtain ⟨input, output, error⟩ := lastAmong_word word rest
  have words : ownWords (t :: rest) = t :: ownWords rest := ownWords_word word
  refine ⟨fed_cons.mpr ⟨fun takes => absurd takes (not_takesFile_of_isWord word), later.fed⟩,
    ?_, ?_, ?_, ?_, ?_, ?_⟩
  · rw [words]
    exact later.called
  · rw [words]
    exact later.args
  · rw [input, later.input]
  · rw [output, later.output]
  · rw [error, later.error]
  · rw [error, later.mergeErr]

/-- The words of its own behind the name are the arguments. -/
theorem ReadOn.cons_arg {called : String} (word : t.isWord)
    (later : ReadOn (some called) { s with args := s.args ++ [⟨t.text, t.quoted⟩] } rest s') :
    ReadOn (some called) s (t :: rest) s' := by
  obtain ⟨input, output, error⟩ := lastAmong_word word rest
  have words : ownWords (t :: rest) = t :: ownWords rest := ownWords_word word
  refine ⟨fed_cons.mpr ⟨fun takes => absurd takes (not_takesFile_of_isWord word), later.fed⟩,
    later.called, ?_, ?_, ?_, ?_, ?_⟩
  · rw [words, later.args]
    simp
  · rw [input, later.input]
  · rw [output, later.output]
  · rw [error, later.error]
  · rw [error, later.mergeErr]

/-- A redirection is read with the tokens up to the next one. It counts for the streams that it
concerns unless a later one does. -/
theorem ReadOn.cons_merge (merge : t.kind = .redirectErrToOut)
    (later : ReadOn name { s with mergeErr := true, error := none } rest s') :
    ReadOn name s (t :: rest) s' := by
  have free : ¬ t.takesFile := by simp [Token.takesFile, merge]
  have words : ownWords (t :: rest) = ownWords rest :=
    ownWords_free (by simp [Token.isWord, merge]) free
  refine ⟨fed_cons.mpr ⟨fun takes => absurd takes free, later.fed⟩, ?_, ?_, ?_, ?_, ?_, ?_⟩
  · rw [words, later.called]
  · rw [words, later.args]
  · rw [lastAmong_cons_of_notMem (by rw [merge]; decide), later.input]
  · rw [lastAmong_cons_of_notMem (by rw [merge]; decide), later.output]
  · rw [lastAmong_cons, later.error, merge, if_pos (by decide)]
    cases lastAmong errorKinds rest <;> rfl
  · rw [lastAmong_cons, later.mergeErr, merge, if_pos (by decide)]
    cases lastAmong errorKinds rest <;> rfl

/-- A redirection with its file changes the command as it says. -/
theorem ReadOn.cons_file (takes : t.takesFile) (isFile : file.isWord)
    (later : ReadOn name (s.redirect t.kind file.text) rest s') :
    ReadOn name s (t :: file :: rest) s' := by
  obtain ⟨input, output, error⟩ := lastAmong_word isFile rest
  have words : ownWords (t :: file :: rest) = ownWords rest := ownWords_file takes isFile
  have free := not_takesFile_of_isWord isFile
  refine ⟨?_, ?_, ?_, ?_, ?_, ?_, ?_⟩
  · exact fed_cons.mpr ⟨fun _ => ⟨file, rfl, isFile⟩,
      fed_cons.mpr ⟨fun takes => absurd takes free, later.fed⟩⟩
  · rw [words, later.called]
  · rw [words, later.args]
    cases t.kind <;> rfl
  · rw [lastAmong_cons, input, later.input]
    cases lastAmong [.redirectIn] rest <;> cases t.kind <;> rfl
  · rw [lastAmong_cons, output, later.output]
    cases lastAmong outputKinds rest <;> cases t.kind <;> rfl
  · rw [lastAmong_cons, error, later.error]
    cases lastAmong errorKinds rest
    · revert takes
      rw [Token.takesFile]
      cases t.kind <;> simp [errorKinds, redirect, errorTarget?]
    · rfl
  · rw [lastAmong_cons, error, later.mergeErr]
    cases lastAmong errorKinds rest
    · revert takes
      rw [Token.takesFile]
      cases t.kind <;> simp [errorKinds, redirect, merges]
    · rfl

theorem readOn_of_read (done : read position name s tokens = .ok s') :
    ReadOn name s tokens s' := by
  fun_induction read position name s tokens with
  | case1 s name =>
    cases done
    exact readOn_nil
  | case3 s t rest kind ih => exact (ih done).cons_name (decide_eq_true kind)
  | case4 s t rest kind name ih => exact (ih done).cons_arg (decide_eq_true kind)
  | case5 name s t rest kind ih => exact (ih done).cons_merge kind
  | case7 name s t placed file rest isFile word merge redirects ih =>
    exact (ih done).cons_file (Bool.and_eq_true_iff.mpr ⟨redirects, decide_eq_true merge⟩) isFile
  | case2 | case6 | case8 | case9 | case10 => cases done

/-- A command is what its slice says. -/
theorem readFrom_of_ofTokens (done : ofTokens position slice = .ok s) : ReadFrom slice s := by
  obtain ⟨fed, called, args, input, output, error, mergeErr⟩ := readOn_of_read done
  refine ⟨fed, ?_, ?_, ?_, ?_, ?_, ?_⟩
  · simpa using called
  · simpa using args
  · simpa using input
  · simpa using output
  · rw [error]
    cases lastAmong errorKinds slice <;> rfl
  · rw [mergeErr]
    cases lastAmong errorKinds slice <;> rfl

/-- Where a command stands decides which of its streams may be redirected. -/
theorem placed_of_ofTokens (ordinary : ∀ t ∈ slice, t.isWord ∨ t.kind.isRedirect)
    (done : ofTokens position slice = .ok s) : (s.input.isSome → position.isFirst) ∧
      (s.output.isSome ∨ s.error.isSome → position.isLast) := by
  have grammatical := (exists_ofTokens_iff ordinary).mp ⟨s, done⟩
  have readFrom := readFrom_of_ofTokens done
  have outward : ∀ kinds : List TokenKind, (∀ kind ∈ kinds, kind.isRedirect ∧
      kind ≠ .redirectErrToOut ∧ kind ≠ .redirectIn) → (∃ t ∈ slice, t.kind ∈ kinds) →
        position.isLast := by
    rintro kinds files ⟨t, member, among⟩
    obtain ⟨redirects, apart, out⟩ := files _ among
    exact grammatical.output ⟨t, member, Bool.and_eq_true_iff.mpr ⟨redirects, decide_eq_true apart⟩,
      out⟩
  refine ⟨fun told => ?_, ?_⟩
  · rw [readFrom.input, Option.isSome_map] at told
    obtain ⟨found, last⟩ := Option.isSome_iff_exists.mp told
    obtain ⟨t, member, -, among⟩ := exists_of_lastAmong last
    exact grammatical.input ⟨t, member, List.mem_singleton.mp among⟩
  · rintro (told | told)
    · rw [readFrom.output, Option.isSome_map] at told
      obtain ⟨found, last⟩ := Option.isSome_iff_exists.mp told
      obtain ⟨t, member, -, among⟩ := exists_of_lastAmong last
      exact outward outputKinds (by decide) ⟨t, member, among⟩
    · rw [readFrom.error] at told
      obtain ⟨target, named⟩ := Option.isSome_iff_exists.mp told
      obtain ⟨⟨kind, path⟩, last, alone⟩ := Option.bind_eq_some_iff.mp named
      obtain ⟨t, member, same, -⟩ := exists_of_lastAmong last
      dsimp only at same
      refine outward [.redirectErr, .redirectErrAppend] (by decide) ⟨t, member, ?_⟩
      rw [same]
      cases kind <;> first | decide | cases alone

/-- The error output does not go to a file and follow the output. -/
theorem ReadFrom.apart (readFrom : ReadFrom slice s) (merged : s.mergeErr) : s.error = none := by
  rw [readFrom.mergeErr] at merged
  rw [readFrom.error]
  cases last : lastAmong errorKinds slice with
  | none => rfl
  | some found =>
    rw [last] at merged
    obtain ⟨kind, path⟩ := found
    change merges kind at merged
    cases kind <;> first | rfl | cases merged

/-- Words and redirections never come to a token that has no place in a command. -/
theorem read_ne_internal (ordinary : ∀ t ∈ tokens, t.isWord ∨ t.kind.isRedirect)
    (message : String) : read position name s tokens ≠ .error (.internal message) := by
  fun_induction read position name s tokens with
  | case1 | case2 | case9 | case10 => rintro ⟨⟩
  | case3 s t rest kind ih | case4 s t rest kind name ih | case5 name s t rest kind ih =>
    exact ih (List.forall_mem_cons.mp ordinary).2
  | case6 name s t rest failure misplaced word merge =>
    rintro ⟨⟩
    rw [misplaced?] at misplaced
    split_ifs at misplaced <;> cases misplaced
  | case7 name s t placed file rest isFile word merge redirects ih =>
    exact ih (List.forall_mem_cons.mp (List.forall_mem_cons.mp ordinary).2).2
  | case8 name s t placed file rest isFile word merge strange =>
    rcases ordinary t (List.mem_cons_self ..) with isWord | redirects
    · exact absurd (of_decide_eq_true isWord) word
    · exact absurd redirects strange

end Segment

namespace Pipeline

/-- Whether a pipeline is what a group says: there is a command for each slice, input is redirected
for the first one only and outputs for the last one only, and no error output goes two ways. -/
structure ReadFrom (group : List Token) (p : Pipeline) : Prop where
  nonempty : p.segments ≠ []
  segments : List.Forall₂ Segment.ReadFrom (group.splitOnP (·.kind = .pipe)) p.segments
  input : ∀ i (s : Segment), p.segments[i]? = some s → s.input.isSome → i = 0
  output : ∀ i (s : Segment), p.segments[i]? = some s → s.output.isSome ∨ s.error.isSome →
    i + 1 = p.segments.length
  apart : ∀ s ∈ p.segments, ¬ (s.error.isSome ∧ s.mergeErr)

variable {group : List Token} {p : Pipeline}

/-- The commands are read from the slices one by one, each where it stands. -/
theorem forall₂_of_ofTokens (done : ofTokens group = .ok p) :
    List.Forall₂ (fun (slice, i) s => Segment.ofTokens
        ⟨i = 0, i + 1 = (group.splitOnP (·.kind = .pipe)).length⟩ slice = .ok s)
      (group.splitOnP (·.kind = .pipe)).zipIdx p.segments := by
  rw [ofTokens] at done
  split at done
  · cases done
  · obtain ⟨segments, each, rfl⟩ := exists_of_map_eq_ok done
    simpa only [read_eq_mapM, mapM_eq_ok_iff, Bool.true_and] using each

/-- A pipeline comes from the group it was read from, command by command. -/
theorem readFrom_of_ofTokens (plain : ∀ t ∈ group, ¬ t.kind.isChainOperator)
    (done : ofTokens group = .ok p) : ReadFrom group p := by
  have each := forall₂_of_ofTokens done
  have count : (group.splitOnP (·.kind = .pipe)).length = p.segments.length := by
    rw [← List.length_zipIdx, each.length_eq]
  have slices : List.Forall₂ Segment.ReadFrom (group.splitOnP (·.kind = .pipe)) p.segments := by
    rw [← List.zipIdx_map_fst 0 (group.splitOnP (·.kind = .pipe)), List.forall₂_map_left_iff]
    exact each.imp fun _ _ done => Segment.readFrom_of_ofTokens done
  have placed : ∀ i (s : Segment), p.segments[i]? = some s → (s.input.isSome → i = 0) ∧
      (s.output.isSome ∨ s.error.isSome → i + 1 = p.segments.length) := by
    intro i s here
    obtain ⟨⟨slice, j⟩, there, done⟩ := exists_getElem?_of_forall₂ each here
    obtain ⟨piece, rfl⟩ : (group.splitOnP (·.kind = .pipe))[i]? = some slice ∧ i = j := by
      simpa using there
    have ordinary := ordinary_of_mem_splitOnP plain (List.mem_of_getElem? piece)
    simpa [count] using Segment.placed_of_ofTokens ordinary done
  refine ⟨?_, slices, fun i s here => (placed i s here).1, fun i s here => (placed i s here).2,
    fun s member => ?_⟩
  · rintro none
    rw [none, List.length_nil, List.length_eq_zero_iff] at count
    exact List.splitOnP_ne_nil _ _ count
  · rintro ⟨error, merged⟩
    obtain ⟨i, here⟩ := List.mem_iff_getElem?.mp member
    obtain ⟨slice, -, readFrom⟩ := exists_getElem?_of_forall₂ slices here
    rw [readFrom.apart merged] at error
    cases error

/-- A pipeline never comes to a token that has no place in a command. -/
theorem ofTokens_ne_internal (plain : ∀ t ∈ group, ¬ t.kind.isChainOperator) (message : String) :
    ofTokens group ≠ .error (.internal message) := by
  intro failed
  rw [ofTokens] at failed
  split at failed
  · cases failed
  · have unread := eq_error_of_map_eq_error failed
    rw [read_eq_mapM] at unread
    obtain ⟨⟨slice, i⟩, member, failed⟩ := exists_of_mapM_eq_error unread
    have piece := List.mem_of_getElem? (List.mem_zipIdx_iff_getElem?.mp member)
    exact Segment.read_ne_internal (ordinary_of_mem_splitOnP plain piece) message failed

end Pipeline

namespace Chain

variable {tokens : List Token}

/-- A chain has the pipelines that were read, whatever stands behind them. -/
theorem map_pipeline_closeLast (links : List Link) :
    (closeLast links).map Link.pipeline = links.map Link.pipeline := by
  fun_induction closeLast links with
  | case1 | case2 => rfl
  | case3 link rest several ih => rw [List.map_cons, ih, List.map_cons]

/-- No tokens lead to an internal failure. -/
theorem ofTokens_ne_internal (tokens : List Token) (message : String) :
    ofTokens tokens ≠ .error (.internal message) := by
  intro failed
  rw [ofTokens] at failed
  have unread := eq_error_of_map_eq_error (f := fun links => (⟨closeLast links⟩ : Chain)) failed
  obtain ⟨g, member, failed⟩ := exists_of_mapM_eq_error unread
  exact Pipeline.ofTokens_ne_internal (plain_of_mem_groups (List.mem_filter.mp member).1) message
    (eq_error_of_map_eq_error failed)

/-- The pipelines of a chain are what the groups say that are not empty, one by one. -/
theorem forall₂_readFrom_of_ofTokens {c : Chain} (done : ofTokens tokens = .ok c) :
    List.Forall₂ (fun group link => Pipeline.ReadFrom group link.pipeline)
      ((tokens.splitOnP (·.kind.isChainOperator)).filter (!·.isEmpty)) c.links := by
  obtain ⟨links, reads, rfl⟩ := ofTokens_eq_ok_iff.mp done
  have each : List.Forall₂ (fun (g : List Token × Connector) p => Pipeline.ReadFrom g.1 p)
      ((groups [] tokens).filter fun g => !g.1.isEmpty) (links.map Link.pipeline) := by
    refine List.forall₂_map_right_iff.mpr (((List.forall₂_and_left _ _).mpr
      ⟨fun g member => ?_, reads⟩).imp fun g link ⟨plain, reads⟩ =>
        Pipeline.readFrom_of_ofTokens plain reads.1)
    exact plain_of_mem_groups (List.mem_filter.mp member).1
  rw [← map_fst_groups_nil, List.filter_map, List.forall₂_map_left_iff]
  rw [← map_pipeline_closeLast, List.forall₂_map_right_iff] at each
  exact each

/-- Whatever the tokens are, reading them never comes to a token that has no place in a command. A
chain that is read has nothing behind its last link only, its pipelines are what the groups between
the chain operators say that are not empty, and the commands of a pipeline are what the slices between
`|` say: the words of its own in order, and for every stream its last redirection. -/
theorem wellFormed_of_ofTokens (tokens : List Token) :
    (∀ message, ofTokens tokens ≠ .error (.internal message)) ∧
      ∀ c, ofTokens tokens = .ok c → Joined c.links ∧
        List.Forall₂ (fun group link => Pipeline.ReadFrom group link.pipeline)
          ((tokens.splitOnP (·.kind.isChainOperator)).filter (!·.isEmpty)) c.links :=
  ⟨ofTokens_ne_internal tokens, fun _ done =>
    ⟨joined_of_ofTokens done, forall₂_readFrom_of_ofTokens done⟩⟩

private def overruled : List Token :=
  [.word "sort" false, ⟨.redirectIn, "<", false⟩, .word "a" false,
    ⟨.redirectErrToOut, "2>&1", false⟩, ⟨.pipe, "|", false⟩, .word "tee" false,
    ⟨.redirectAppend, ">>", false⟩, .word "b" false, .word "x" true,
    ⟨.redirectErr, "2>", false⟩, .word "e" false, ⟨.redirectAll, "&>", false⟩, .word "c" false,
    ⟨.redirectErrAppend, "2>>", false⟩, .word "d" false, ⟨.and, "&&", false⟩,
    ⟨.semicolon, ";", false⟩, ⟨.redirectIn, "<", false⟩, .word "y" false, .word "ls" false,
    ⟨.redirectIn, "<", false⟩, .word "z" false, ⟨.semicolon, ";", false⟩]

/-- Of several redirections in `overruled` the last ones count. -/
theorem wellFormed_of_ofTokens_overruled : ∃ c, ofTokens overruled = .ok c ∧
    c.links = [⟨⟨[{ name := "sort", input := some "a", mergeErr := true },
        { name := "tee", args := [⟨"x", true⟩], output := some ⟨"c", false⟩,
          error := some ⟨"d", true⟩ }]⟩, .and⟩,
      ⟨⟨[{ name := "ls", input := some "z" }]⟩, .last⟩] ∧
    Joined c.links ∧ List.Forall₂ (fun group link => Pipeline.ReadFrom group link.pipeline)
      ((overruled.splitOnP (·.kind.isChainOperator)).filter (!·.isEmpty)) c.links := by
  have done : ofTokens overruled = .ok ⟨[⟨⟨[{ name := "sort", input := some "a", mergeErr := true },
      { name := "tee", args := [⟨"x", true⟩], output := some ⟨"c", false⟩,
        error := some ⟨"d", true⟩ }]⟩, .and⟩,
      ⟨⟨[{ name := "ls", input := some "z" }]⟩, .last⟩]⟩ := rfl
  exact ⟨_, done, rfl, (wellFormed_of_ofTokens overruled).2 _ done⟩

end Chain

end StoreShell
