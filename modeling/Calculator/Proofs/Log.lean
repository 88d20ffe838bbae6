import Calculator.Proofs.Marks
import Calculator.Proofs.Source
import Calculator.Proofs.Trail
import Calculator.Proofs.Tree.Evaluation

/-!
# The log of a source

The log lists the lexemes of a source and then the rules entered on its tokens, and ends with
the value if there is one.  All of that can be said from the tokens alone, without following
the descent.

Main results:

- Theorem `tokensLogged`: evaluating tokens logs the rules that they enter, up to the token at
  which a failure arises.
- Theorem `log_determined`: the lines of the log of a source.
-/

namespace Calculator

/-! ## The rules entered on a token sequence -/

/-- The rules entered in front of the first token of a sum. -/
def openingEntries : List (Rule × Nat) :=
  [(.expression, 0), (.sum, 0), (.product, 0), (.unary, 0)]

/-- The rules entered on tokens in front of their closing marker. -/
def trail : List Token → List (Rule × Nat)
  | [] => [(.expression, 0)]
  | tokens => openingEntries ++ operatorEntries 0 tokens

namespace Evaluation

variable {result : EStateM.Result Interrupt Session Int64}
  {hsafe : ∀ position after, result ≠ .error (.unreadRefused position) after} {after : Session}

/-- A step with a value leaves the value and the log behind. -/
theorem ofStep_of_ok {value : Int64} (hended : result = .ok value after) :
    ofStep result hsafe = ⟨.ok value, after.log⟩ := by
  subst hended
  rfl

/-- A step that fails leaves the failure behind, and the log up to it. -/
theorem ofStep_of_error {cause : Failure} (hended : result = .error (.failure cause) after) :
    ofStep result hsafe = ⟨.error cause, after.log⟩ := by
  subst hended
  rfl

/-- Tokens with a value leave the log of the expression that they are. -/
theorem ofTokens_of_ok {tokens : List Token} {value : Int64}
    (hended : Parser.expression (Session.ofCursor (Cursor.ofTokens tokens)) = .ok value after) :
    ofTokens tokens = ⟨.ok value, after.log⟩ :=
  ofStep_of_ok hended

/-- Tokens that fail leave the log up to the failure. -/
theorem ofTokens_of_error {tokens : List Token} {cause : Failure}
    (hended : Parser.expression (Session.ofCursor (Cursor.ofTokens tokens)) =
      .error (.failure cause) after) :
    ofTokens tokens = ⟨.error cause, after.log⟩ :=
  ofStep_of_error hended

end Evaluation

/-- Tokens without a marker that come first in front of a marker come first in front of what
the marker closes. -/
theorem prefix_of_unclosed {pieces followed others : List Token} (hunclosed : Unclosed followed)
    (heq : pieces ++ [Token.endOfInput] = followed ++ others) : followed <+: pieces := by
  rcases List.append_eq_append_iff.mp heq with ⟨middle, hfollowed, hmarker⟩ | ⟨middle, hpieces, -⟩
  · cases middle with
    | nil => exact ⟨[], by simp [hfollowed]⟩
    | cons token middle =>
        rw [List.cons_append, List.cons.injEq] at hmarker
        refine absurd ?_ (hunclosed token (by simp [hfollowed]))
        rw [← hmarker.1]
        rfl
  · exact ⟨middle, hpieces.symm⟩

section Tokens

variable {pieces : List Token} {after : Session}

/-- The trail of an expression that is not empty opens with the rules of its first operand. -/
theorem trail_eq_of_ne_nil (hne : pieces ≠ []) :
    trail pieces = openingEntries ++ operatorEntries 0 pieces := by
  cases pieces with
  | nil => exact absurd rfl hne
  | cons piece pieces => rfl

/-- What is logged while the sum of an expression is read. -/
theorem log_of_logs {followed refused : List Token}
    (hlogs : (Phrase.chain .sum).Logs (.opening (some 256) (pieces ++ [Token.endOfInput]))
      followed refused after) :
    after.log.toList = (openingEntries ++ operatorEntries 0 followed).map Event.ofEntry := by
  have hlog := hlogs.log_eq
  rw [hlog]
  rfl

/-- A sum that has a value logs the whole trail. -/
theorem log_of_reads {value : Int64} (hne : pieces ≠ []) (hunclosed : Unclosed pieces)
    (hreads : Phrase.Reads (.chain .sum) (.opening (some 256) (pieces ++ [Token.endOfInput]))
      value after) :
    after.log.toList = (trail pieces).map Event.ofEntry := by
  rcases hreads.exists_logs with ⟨taken, hlogs, -⟩
  rcases hreads.stops with ⟨token, others, hafter, hstop⟩
  have hupcoming := hlogs.takes.upcoming_eq
  rw [Session.upcoming_opening, hafter, List.append_nil] at hupcoming
  obtain rfl : taken = pieces :=
    eq_of_append_endOfInput hunclosed (Level.follow_sum_eq_stop_iff.mp hstop) hupcoming
  rw [log_of_logs hlogs, trail_eq_of_ne_nil hne]

/-- A sum that fails logs the trail up to the token that it refuses. -/
theorem log_of_fails {cause : Failure}
    (hfails : Phrase.Fails (.chain .sum) (.opening (some 256) (pieces ++ [Token.endOfInput]))
      cause after) :
    ∃ followed, followed <+: pieces ∧
      after.log.toList = (openingEntries ++ operatorEntries 0 followed).map Event.ofEntry ∧
      match cause with
      | .lexical _ => False
      | .grammatical error => followed = pieces.take (error.position - 1)
      | .arithmetic _ => True := by
  rcases hfails.exists_logs with ⟨followed, refused, hlogs, hfollowed, hrefuses⟩
  have hupcoming := hlogs.takes.upcoming_eq
  have hposition := hlogs.takes.position_eq
  rw [Session.upcoming_opening, List.append_assoc] at hupcoming
  have hfront := prefix_of_unclosed hfollowed hupcoming
  refine ⟨followed, hfront, log_of_logs hlogs, ?_⟩
  cases hrefuses with
  | ending hend =>
      -- the tokens cannot run out in front of their marker
      rw [hend, List.append_nil, List.append_nil] at hupcoming
      refine absurd rfl (hfollowed Token.endOfInput ?_)
      simp [← hupcoming]
  | @token error token hsame =>
      have hlength : error.position - 1 = followed.length := by
        rw [hsame, hposition]
        simp [Cursor.ofTokensWithin]
      show followed = pieces.take (error.position - 1)
      rw [hlength]
      exact List.prefix_iff_eq_take.mp hfront
  | arithmetic error => trivial

/-- The trail up to a token is the start of the whole trail. -/
theorem prefix_trail {followed : List Token} (hne : pieces ≠ []) (hfront : followed <+: pieces) :
    openingEntries ++ operatorEntries 0 followed <+: trail pieces := by
  rcases hfront with ⟨others, rfl⟩
  rw [trail_eq_of_ne_nil hne, operatorEntries_append, ← List.append_assoc]
  exact List.prefix_append _ _

/-- What is logged while tokens in front of their marker are evaluated. -/
def TokensLogged (pieces : List Token) : Except Failure Int64 → List (Rule × Nat) → Prop
  | .ok _, entries => entries = trail pieces
  | .error cause, entries =>
      entries <+: trail pieces ∧
        match cause with
        | .lexical _ => False
        | .grammatical error =>
            entries = openingEntries ++ operatorEntries 0 (pieces.take (error.position - 1))
        | .arithmetic _ => True

/-- Evaluating tokens logs their trail, or the start of it. -/
theorem tokensLogged (hunclosed : Unclosed pieces) :
    ∃ entries, (Evaluation.ofTokens (pieces ++ [Token.endOfInput])).log.toList =
        entries.map Event.ofEntry ∧
      TokensLogged pieces (evaluateTokens (pieces ++ [Token.endOfInput])) entries := by
  unfold evaluateTokens
  cases pieces with
  | nil =>
      rw [List.nil_append, Evaluation.ofTokens_of_ok
        (Parser.expression_end (Session.upcoming_ofTokensWithin _ [Token.endOfInput]) rfl)]
      exact ⟨_, rfl, rfl⟩
  | cons piece others =>
      have hne : piece :: others ≠ [] := List.cons_ne_nil _ _
      have hsum : Parser.expression
          (Session.ofCursor (Cursor.ofTokens (piece :: others ++ [Token.endOfInput]))) =
          (Phrase.chain .sum).parser
            (.opening (some 256) (piece :: others ++ [Token.endOfInput])) :=
        Parser.expression_sum (Session.upcoming_ofTokensWithin _ _) (hunclosed piece (by simp))
      rcases Phrase.reads_or_fails (.chain .sum)
        (.opening (some 256) (piece :: others ++ [Token.endOfInput])) with
        ⟨value, after, hreads⟩ | ⟨cause, after, hfails⟩
      · rw [Evaluation.ofTokens_of_ok (hsum.trans hreads.parser_eq)]
        exact ⟨_, log_of_reads hne hunclosed hreads, rfl⟩
      · rw [Evaluation.ofTokens_of_error (hsum.trans hfails.parser_eq)]
        rcases log_of_fails hfails with ⟨followed, hfront, hlog, hcause⟩
        refine ⟨_, hlog, prefix_trail hne hfront, ?_⟩
        cases cause with
        | lexical error => exact hcause
        | grammatical error => exact congrArg _ (congrArg _ hcause)
        | arithmetic error => trivial

end Tokens

/-! ## The lines of a log -/

/-- What a log shows of an event: how grave it is, and its wording. -/
def Event.line (event : Event) : String × String :=
  (event.severity.label, event.message)

/-- The lines of the log of a source. -/
def logLines (source : String) : List (String × String) :=
  (Evaluation.ofSource source).log.toList.map Event.line

/-- The line of a lexeme: its kind, its text and the bytes that spell it. -/
def Lexeme.line (lexeme : Lexeme) : String × String :=
  ("TRACE",
    "lexed " ++ lexeme.token.kind.label ++ " " ++ quotedString lexeme.token.text ++ " at " ++
      toString lexeme.start ++ ".." ++ toString lexeme.stop)

/-- The line of a rule that is entered at a place. -/
def entryLine (entry : Rule × Nat) : String × String :=
  ("TRACE", entry.1.label ++ " at " ++ toString entry.2)

/-- The lines that close a log: the value of the source, if it has one. -/
def closingLines (source : String) : Except Failure Int64 → List (String × String)
  | .ok value => [("DEBUG", quotedString source ++ " = " ++ toString value.toInt)]
  | .error _ => []

/-- The lexemes of a source, as far as it can be split into tokens. -/
def lexemesOf (source : String) : List Lexeme :=
  (Scan.ofSource source).lexemes

section Source

variable {source : String}

/-- A source with a stranger logs the tokens in front of it, and nothing else. -/
theorem logLines_of_error {error : LexicalError} (htokens : tokenize source = .error error) :
    logLines source = (lexemesOf source).map Lexeme.line := by
  unfold tokenize at htokens
  simp only [logLines, Evaluation.ofSource, htokens, Scan.log, List.map_map]
  rfl

/-- Any other source logs its tokens, the rules that they enter, and its value if it has one. -/
theorem logLines_of_ok {tokens : List Token} {entries : List (Rule × Nat)}
    (htokens : tokenize source = .ok tokens)
    (hentries : (Evaluation.ofTokens tokens).log.toList = entries.map Event.ofEntry) :
    logLines source =
      (lexemesOf source).map Lexeme.line ++ entries.map entryLine ++
        closingLines source (evaluate source) := by
  have hresult : evaluate source = (Evaluation.ofTokens tokens).result := by
    rw [evaluate_eq, htokens]
    rfl
  have hlexemes : (Scan.ofSource source).log.toList.map Event.line =
      (lexemesOf source).map Lexeme.line := by
    simp only [Scan.log, List.map_map]
    rfl
  have hrules : (Evaluation.ofTokens tokens).log.toList.map Event.line =
      entries.map entryLine := by
    rw [hentries, List.map_map]
    rfl
  rw [hresult, ← hlexemes, ← hrules]
  unfold tokenize at htokens
  unfold logLines Evaluation.ofSource
  simp only [htokens]
  cases (Evaluation.ofTokens tokens).result with
  | error cause => simp [closingLines]
  | ok value =>
      simp [closingLines]
      rfl

/-- The log of a source is determined by its tokens.  It lists the lexemes in order, with the
bytes that spell them and nothing but spaces in between, as far as the source can be split into
tokens.  If all of it can, what follows are the rules that the tokens enter, up to the token at
which a failure arises, and the value. -/
theorem log_determined (source : String) :
    match tokenize source with
    | .error (.unexpectedCharacter _ i) =>
        Marks source 0 (lexemesOf source) i ∧
          tokenize (String.ofList (source.toList.take i)) =
            .ok ((lexemesOf source).map Lexeme.token ++ [Token.endOfInput]) ∧
          logLines source = (lexemesOf source).map Lexeme.line
    | .ok tokens =>
        Marks source 0 (lexemesOf source) source.utf8ByteSize ∧
          tokens = (lexemesOf source).map Lexeme.token ++ [Token.endOfInput] ∧
          (lexemesOf source = [] ↔ ∀ c ∈ source.toList, c = ' ') ∧
          ∃ entries,
            TokensLogged ((lexemesOf source).map Lexeme.token) (evaluate source) entries ∧
              logLines source =
                (lexemesOf source).map Lexeme.line ++ entries.map entryLine ++
                  closingLines source (evaluate source) := by
  by_cases hall : ∀ c ∈ source.toList, InAlphabet c
  · have htokens := tokenize_eq_ok_iff.mpr ⟨hall, rfl⟩
    rcases @Scan.marks_ofSource source source.toList [] (by simp) hall nofun with ⟨hmarks, hpieces⟩
    rcases tokensLogged (unclosed_pieces hall) with ⟨entries, hentries, hlogged⟩
    have hevaluate : evaluate source = evaluateTokens (pieces source ++ [Token.endOfInput]) := by
      rw [evaluate_eq, htokens]
    have hblank : lexemesOf source = [] ↔ ∀ c ∈ source.toList, c = ' ' := by
      rw [← piecesOf_eq_nil_iff hall, ← hpieces, List.map_eq_nil_iff]
      rfl
    have hsize : source.utf8ByteSize = source.toList.length := by
      rw [← size_utf8Encode hall, ← String.toByteArray_ofList, String.ofList_toList]
      rfl
    rw [htokens, hevaluate, hsize]
    refine ⟨hmarks, congrArg (· ++ [Token.endOfInput]) hpieces.symm, hblank, entries, ?_, ?_⟩
    · exact (congrArg (TokensLogged · _ _) hpieces).mpr hlogged
    · rw [← hevaluate]
      exact logLines_of_ok htokens hentries
  · rcases exists_tokenize_eq_error hall with ⟨c, i, herror⟩
    rcases tokenize_eq_error_iff.mp herror with ⟨hc, hstranger, hbefore⟩
    have hlength : (source.toList.take i).length = i :=
      List.length_take_of_le (Nat.le_of_lt (List.getElem?_eq_some_iff.mp hc).1)
    have hrest : ∀ d ∈ (source.toList.drop i).head?, ¬ InAlphabet d := by
      intro d hd
      rw [List.head?_drop, hc] at hd
      cases hd
      exact hstranger
    rcases Scan.marks_ofSource (List.take_append_drop i source.toList).symm hbefore hrest with
      ⟨hmarks, hpieces⟩
    rw [hlength] at hmarks
    rw [herror]
    refine ⟨hmarks, tokenize_eq_ok_iff.mpr ?_, logLines_of_error herror⟩
    rw [pieces, String.toList_ofList]
    exact ⟨hbefore, congrArg (· ++ [Token.endOfInput]) hpieces⟩

end Source

example : logLines "6/-2+" =
    [("TRACE", "lexed Number \"6\" at 0..1"), ("TRACE", "lexed Slash \"/\" at 1..2"),
      ("TRACE", "lexed Minus \"-\" at 2..3"), ("TRACE", "lexed Number \"2\" at 3..4"),
      ("TRACE", "lexed Plus \"+\" at 4..5"), ("TRACE", "expression at 0"), ("TRACE", "sum at 0"),
      ("TRACE", "product at 0"), ("TRACE", "unary at 0"), ("TRACE", "unary at 2"),
      ("TRACE", "product at 3"), ("TRACE", "unary at 3"), ("TRACE", "product at 5"),
      ("TRACE", "unary at 5")] := by
  cbv

end Calculator
