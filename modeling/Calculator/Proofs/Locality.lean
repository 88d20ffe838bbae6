import Calculator.Proofs.Displacement
import Calculator.Proofs.SyntaxErrors
import Mathlib.Data.Nat.Find

/-!
# Locality of parsing

A parser looks at the tokens behind its cursor, in order and no further than it has to, and
at the number of negations open.  It looks neither at the tokens in front of the cursor nor at
whether a move can be taken back.  The tokens in front only count, in the positions that it
reports and in the one where it ends.

Main results:

- Theorem `Machine.evaluate_append_of_ne_unexpectedEnd`: what comes behind tokens that do not
  end too early is not read.
- Theorems `Phrase.Reads.displaced` and `Phrase.Fails.displaced`: a phrase is read in the same
  way behind any tokens.
- Theorem `parsing_local`: both, for the evaluation of tokens and for the rules of the grammar.
-/

namespace Calculator

/-! ## What comes behind -/

namespace Machine

variable {nestingLimit : Option Nat} {tokens : List Token}

/-- What comes behind tokens that do not end too early is not read. -/
theorem evaluate_append_of_ne_unexpectedEnd
    (hend : ∀ position,
      evaluate nestingLimit tokens ≠ .error (.grammatical (.unexpectedEnd position)))
    (others : List Token) :
    evaluate nestingLimit (tokens ++ others) = evaluate nestingLimit tokens := by
  cases hfeed : feed nestingLimit .start 0 tokens with
  | error cause =>
      rw [evaluate_append_of_feed_error hfeed, evaluate_of_feed_error hfeed]
  | ok last =>
    by_cases hdone : last.control = .done
    · cases last <;> cases hdone
      rw [evaluate_append_of_feed hfeed, evaluate_of_feed hfeed, run_done]
      rfl
    · exact absurd (evaluate_eq_unexpectedEnd_iff.mpr ⟨rfl, last, hfeed, hdone⟩) (hend _)

/-- What comes behind the closing marker is not read. -/
theorem evaluate_append_cons_of_end {front : List Token} {token : Token}
    (hkind : token.kind = .endOfInput) (others : List Token) :
    evaluate nestingLimit (front ++ token :: others) =
      evaluate nestingLimit (front ++ [token]) := by
  rw [List.append_cons]
  apply evaluate_append_of_ne_unexpectedEnd
  intro position hend
  have hunclosed := (unclosed_of_evaluate_eq_unexpectedEnd hend).2
  exact (unclosed_concat.mp hunclosed).2 hkind

/-- Tokens that do not end too early are decided by the first of them that do not. -/
theorem exists_take_decides
    (hend : ∀ position,
      evaluate nestingLimit tokens ≠ .error (.grammatical (.unexpectedEnd position))) :
    ∃ count ≤ tokens.length,
      (∀ fewer < count, evaluate nestingLimit (tokens.take fewer) =
        .error (.grammatical (.unexpectedEnd fewer))) ∧
      ∀ others,
        evaluate nestingLimit (tokens.take count ++ others) = evaluate nestingLimit tokens := by
  classical
  have hwhole : ∀ position, evaluate nestingLimit (tokens.take tokens.length) ≠
      .error (.grammatical (.unexpectedEnd position)) := by
    rwa [List.take_length]
  have hsome : ∃ count, ∀ position, evaluate nestingLimit (tokens.take count) ≠
      .error (.grammatical (.unexpectedEnd position)) := ⟨_, hwhole⟩
  have hle : Nat.find hsome ≤ tokens.length := Nat.find_min' hsome hwhole
  refine ⟨Nat.find hsome, hle, ?_, ?_⟩
  · intro fewer hfewer
    have hearly := Nat.find_min hsome hfewer
    simp only [ne_eq, not_forall, not_not] at hearly
    rcases hearly with ⟨position, hposition⟩
    -- an end is only ever missed behind all tokens
    have hlength := (unclosed_of_evaluate_eq_unexpectedEnd hposition).1
    rw [List.length_take, Nat.min_eq_left (by omega)] at hlength
    rw [hposition, hlength]
  · intro others
    have hdecided := evaluate_append_of_ne_unexpectedEnd (Nat.find_spec hsome)
    have hrest := hdecided (tokens.drop (Nat.find hsome))
    rw [List.take_append_drop] at hrest
    rw [hdecided, hrest]

end Machine

/-! ## What stands in front -/

/-- The cursor between two portions of tokens. -/
def Cursor.between (front tokens : List Token) (depth : Nat) (canUnread : Bool) : Cursor :=
  { ofTokens (front ++ tokens) with
    position := front.length, depth := depth, canUnread := canUnread }

/-- The event with a number of further tokens in front. -/
def Event.behind (count : Nat) : Event → Event
  | lexed lexeme => lexed lexeme
  | entered rule position => entered rule (position + count)
  | evaluated source value => evaluated source value

/-- The second session differs from the first by a number of further tokens in front of the
cursor, and perhaps in whether a move can be taken back. -/
structure Session.Displaced (count : Nat) (session session' : Session) : Prop where
  upcoming : session'.upcoming = session.upcoming
  nestingLimit : session'.cursor.nestingLimit = session.cursor.nestingLimit
  position : session'.cursor.position = session.cursor.position + count
  depth : session'.cursor.depth = session.cursor.depth
  log : session'.log = session.log.map (Event.behind count)

/-- Cursors in front of the same tokens are displaced by what stands in front of one of them. -/
theorem Session.displaced_between (front tokens : List Token) (depth : Nat) (f g : Bool) :
    Displaced front.length (ofCursor (.between [] tokens depth f))
      (ofCursor (.between front tokens depth g)) where
  upcoming := by simp [upcoming, ofCursor, Cursor.between, Cursor.ofTokens, Cursor.ofTokensWithin]
  nestingLimit := rfl
  position := (Nat.zero_add _).symm
  depth := rfl
  log := by simp [ofCursor]

namespace Session.Displaced

variable {count : Nat} {session session' : Session} {token : Token} {others : List Token}

theorem upcoming_eq {tokens : List Token} (hdisplaced : session.Displaced count session')
    (hupcoming : session.upcoming = tokens) : session'.upcoming = tokens :=
  hdisplaced.upcoming.trans hupcoming

/-- The next position is displaced by as much. -/
theorem position_succ (hdisplaced : session.Displaced count session') :
    session'.cursor.position + 1 = session.cursor.position + 1 + count := by
  rw [hdisplaced.position, Nat.add_right_comm]

/-- There is as much room for negations at the displaced session. -/
theorem hasRoom_iff (hdisplaced : session.Displaced count session') :
    session'.cursor.HasRoom ↔ session.cursor.HasRoom := by
  rw [Cursor.HasRoom, Cursor.HasRoom, hdisplaced.nestingLimit, hdisplaced.depth]

theorem enter (hdisplaced : session.Displaced count session') (rule : Rule) :
    (session.enter rule).Displaced count (session'.enter rule) where
  upcoming := hdisplaced.upcoming
  nestingLimit := hdisplaced.nestingLimit
  position := hdisplaced.position
  depth := hdisplaced.depth
  log := by
    rw [Session.enter, Session.enter, hdisplaced.log, hdisplaced.position, Array.map_push]
    rfl

/-- Sessions stay displaced when a token is read. -/
theorem advance (hdisplaced : session.Displaced count session')
    (hnext : session.upcoming = token :: others) :
    session.advance.Displaced count session'.advance where
  upcoming := by rw [upcoming_advance hnext, upcoming_advance (hdisplaced.upcoming_eq hnext)]
  nestingLimit := hdisplaced.nestingLimit
  position := hdisplaced.position_succ
  depth := hdisplaced.depth
  log := hdisplaced.log

theorem peek (hdisplaced : session.Displaced count session') :
    session.peek.Displaced count session'.peek where
  upcoming := hdisplaced.upcoming
  nestingLimit := hdisplaced.nestingLimit
  position := hdisplaced.position
  depth := hdisplaced.depth
  log := hdisplaced.log

theorem deepen (hdisplaced : session.Displaced count session') :
    session.deepen.Displaced count session'.deepen where
  upcoming := hdisplaced.upcoming
  nestingLimit := hdisplaced.nestingLimit
  position := hdisplaced.position
  depth := congrArg (· + 1) hdisplaced.depth
  log := hdisplaced.log

theorem release (hdisplaced : session.Displaced count session') :
    session.release.Displaced count session'.release where
  upcoming := hdisplaced.upcoming
  nestingLimit := hdisplaced.nestingLimit
  position := hdisplaced.position
  depth := congrArg (· - 1) hdisplaced.depth
  log := hdisplaced.log

end Session.Displaced

/-- The error for a number is displaced with its position. -/
theorem Numeral.Fault.error_behind (fault : Fault) (text : String) (position count : Nat) :
    fault.error text (position + count) = (fault.error text position).behind count := by
  cases fault <;> rfl

/-! ## Readings behind other tokens -/

namespace Phrase

variable {count : Nat} {phrase : Phrase} {session session' after : Session}

/-- What is read on a session is read behind further tokens. -/
theorem Reads.displaced {value : Int64} (hreads : Reads phrase session value after)
    (hdisplaced : session.Displaced count session') :
    ∃ after', Reads phrase session' value after' ∧ after.Displaced count after' := by
  induction hreads generalizing session' with
  | chain _ _ ihOperand ihRest =>
      rcases ihOperand (hdisplaced.enter _) with ⟨middle', hoperand, hmiddle⟩
      rcases ihRest hmiddle with ⟨after', hrest, hafter⟩
      exact ⟨after', .chain hoperand hrest, hafter⟩
  | more hnext hfollow _ happly _ ihOperand ihRest =>
      rcases ihOperand (hdisplaced.advance hnext) with ⟨middle', hoperand, hmiddle⟩
      rcases ihRest hmiddle with ⟨after', hrest, hafter⟩
      exact ⟨after', .more (hdisplaced.upcoming_eq hnext) hfollow hoperand happly hrest, hafter⟩
  | stop hnext hfollow =>
      exact ⟨_, .stop (hdisplaced.upcoming_eq hnext) hfollow, hdisplaced.peek⟩
  | number hnext hkind hread =>
      exact ⟨_, .number (hdisplaced.upcoming_eq hnext) hkind hread,
        (hdisplaced.enter _).advance hnext⟩
  | negation hnext hkind hroom _ hnegate ih =>
      rcases ih ((hdisplaced.enter _).advance hnext).deepen with ⟨middle', hproduct, hmiddle⟩
      exact ⟨_, .negation (hdisplaced.upcoming_eq hnext) hkind (hdisplaced.hasRoom_iff.mpr hroom)
        hproduct hnegate, hmiddle.release⟩

/-- What fails on a session fails behind further tokens, with larger positions. -/
theorem Fails.displaced {cause : Failure} (hfails : Fails phrase session cause after)
    (hdisplaced : session.Displaced count session') :
    ∃ after', Fails phrase session' (cause.behind count) after' ∧
      after.Displaced count after' := by
  induction hfails generalizing session' with
  | chainOperand _ ih =>
      rcases ih (hdisplaced.enter _) with ⟨after', hoperand, hafter⟩
      exact ⟨after', .chainOperand hoperand, hafter⟩
  | chainRest hoperand _ ih =>
      rcases hoperand.displaced (hdisplaced.enter _) with ⟨middle', hoperand', hmiddle⟩
      rcases ih hmiddle with ⟨after', hrest, hafter⟩
      exact ⟨after', .chainRest hoperand' hrest, hafter⟩
  | @restEnd level _ lhs hend =>
      -- here and below the position is that of the cursor, which moves with the tokens
      have hfails := @Fails.restEnd level _ lhs (hdisplaced.upcoming_eq hend)
      rw [hdisplaced.position] at hfails
      exact ⟨_, hfails, hdisplaced⟩
  | restOperand hnext hfollow _ ih =>
      rcases ih (hdisplaced.advance hnext) with ⟨after', hoperand, hafter⟩
      exact ⟨after', .restOperand (hdisplaced.upcoming_eq hnext) hfollow hoperand, hafter⟩
  | restApply hnext hfollow hoperand happly =>
      rcases hoperand.displaced (hdisplaced.advance hnext) with ⟨middle', hoperand', hmiddle⟩
      exact ⟨middle', .restApply (hdisplaced.upcoming_eq hnext) hfollow hoperand' happly,
        hmiddle⟩
  | restMore hnext hfollow hoperand happly _ ih =>
      rcases hoperand.displaced (hdisplaced.advance hnext) with ⟨middle', hoperand', hmiddle⟩
      rcases ih hmiddle with ⟨after', hrest, hafter⟩
      exact ⟨after',
        .restMore (hdisplaced.upcoming_eq hnext) hfollow hoperand' happly hrest, hafter⟩
  | @restRefuse level _ token others lhs hnext hfollow =>
      have hfails := @Fails.restRefuse level _ token others lhs
        (hdisplaced.upcoming_eq hnext) hfollow
      rw [hdisplaced.position_succ] at hfails
      exact ⟨_, hfails, hdisplaced.advance hnext⟩
  | unaryEnd hend =>
      have hfails := Fails.unaryEnd (hdisplaced.upcoming_eq hend)
      rw [hdisplaced.position] at hfails
      exact ⟨_, hfails, hdisplaced.enter _⟩
  | tooDeep hnext hkind hfull =>
      have hfails := Fails.tooDeep (hdisplaced.upcoming_eq hnext) hkind
        (mt hdisplaced.hasRoom_iff.mp hfull)
      rw [hdisplaced.position_succ] at hfails
      exact ⟨_, hfails, (hdisplaced.enter _).advance hnext⟩
  | negated hnext hkind hroom _ ih =>
      rcases ih ((hdisplaced.enter _).advance hnext).deepen with ⟨after', hproduct, hafter⟩
      exact ⟨after', .negated (hdisplaced.upcoming_eq hnext) hkind
        (hdisplaced.hasRoom_iff.mpr hroom) hproduct, hafter⟩
  | negate hnext hkind hroom hproduct hnegate =>
      rcases hproduct.displaced ((hdisplaced.enter _).advance hnext).deepen with
        ⟨middle', hproduct', hmiddle⟩
      exact ⟨_, .negate (hdisplaced.upcoming_eq hnext) hkind (hdisplaced.hasRoom_iff.mpr hroom)
        hproduct' hnegate, hmiddle.release⟩
  | literal hnext hkind hread =>
      have hfails := Fails.literal (hdisplaced.upcoming_eq hnext) hkind hread
      rw [hdisplaced.position_succ, Numeral.Fault.error_behind] at hfails
      exact ⟨_, hfails, (hdisplaced.enter _).advance hnext⟩
  | misplaced hnext hminus hnumber =>
      have hfails := Fails.misplaced (hdisplaced.upcoming_eq hnext) hminus hnumber
      rw [hdisplaced.position_succ] at hfails
      exact ⟨_, hfails, (hdisplaced.enter _).advance hnext⟩

end Phrase

/-! ## Parsers behind other tokens -/

/-- The second result is the first one with a number of further tokens in front: it has the
same value, or the same failure with larger positions, and the session is displaced. -/
inductive EndsBehind (count : Nat) :
    EStateM.Result Interrupt Session Int64 → EStateM.Result Interrupt Session Int64 → Prop where
  | ok {value : Int64} {after after' : Session} (hafter : after.Displaced count after') :
      EndsBehind count (.ok value after) (.ok value after')
  | failure {cause : Failure} {after after' : Session} (hafter : after.Displaced count after') :
      EndsBehind count (.error (.failure cause) after)
        (.error (.failure (cause.behind count)) after')

section Parsers

variable {count : Nat} {session session' : Session}

/-- The parser of a phrase ends in the same way behind further tokens. -/
theorem Phrase.parser_displaced (phrase : Phrase) (hdisplaced : session.Displaced count session') :
    EndsBehind count (phrase.parser session) (phrase.parser session') := by
  rcases phrase.reads_or_fails session with ⟨value, after, hreads⟩ | ⟨cause, after, hfails⟩
  · rcases hreads.displaced hdisplaced with ⟨after', hreads', hafter⟩
    rw [hreads.parser_eq, hreads'.parser_eq]
    exact .ok hafter
  · rcases hfails.displaced hdisplaced with ⟨after', hfails', hafter⟩
    rw [hfails.parser_eq, hfails'.parser_eq]
    exact .failure hafter

/-- An expression ends in the same way behind further tokens. -/
theorem Parser.expression_displaced (hdisplaced : session.Displaced count session') :
    EndsBehind count (expression session) (expression session') := by
  cases hnext : session.upcoming with
  | nil =>
      rw [expression_nil hnext, expression_nil (hdisplaced.upcoming_eq hnext),
        hdisplaced.position]
      exact .failure (hdisplaced.enter _)
  | cons token others =>
    have hnext' := hdisplaced.upcoming_eq hnext
    by_cases hkind : token.kind = .endOfInput
    · rw [expression_end hnext hkind, expression_end hnext' hkind]
      exact .ok ((hdisplaced.enter _).advance hnext)
    · rw [expression_sum hnext hkind, expression_sum hnext' hkind]
      exact Phrase.parser_displaced (.chain .sum) (hdisplaced.enter _).peek

/-- Every rule ends in the same way behind further tokens. -/
theorem Parser.ofRule_displaced (rule : Rule) (hdisplaced : session.Displaced count session') :
    EndsBehind count (ofRule rule session) (ofRule rule session') := by
  cases rule with
  | expression => exact expression_displaced hdisplaced
  | sum => exact Phrase.parser_displaced (.chain .sum) hdisplaced
  | product => exact Phrase.parser_displaced (.chain .product) hdisplaced
  | unary => exact Phrase.parser_displaced .unary hdisplaced

end Parsers

/-- Parsing is local.  What comes behind tokens that do not end too early does not matter:
nothing behind a closing marker does, and nothing behind the token that decides the result.
And whatever tokens stand in front of the cursor, each rule ends with the same value and the
same depth, or with the same failure and larger positions, in a place that is further on by
the number of tokens in front. -/
theorem parsing_local :
    (∀ tokens others,
      (∀ position,
        evaluateTokens tokens ≠ .error (.grammatical (.unexpectedEnd position))) →
        evaluateTokens (tokens ++ others) = evaluateTokens tokens) ∧
    (∀ front token others, token.kind = .endOfInput →
      evaluateTokens (front ++ token :: others) = evaluateTokens (front ++ [token])) ∧
    (∀ tokens,
      (∀ position,
        evaluateTokens tokens ≠ .error (.grammatical (.unexpectedEnd position))) →
        ∃ count ≤ tokens.length,
          (∀ fewer < count, evaluateTokens (tokens.take fewer) =
            .error (.grammatical (.unexpectedEnd fewer))) ∧
          ∀ others, evaluateTokens (tokens.take count ++ others) = evaluateTokens tokens) ∧
    ∀ rule front tokens depth canUnread canUnread',
      EndsBehind front.length
        (Parser.ofRule rule (.ofCursor (.between [] tokens depth canUnread)))
        (Parser.ofRule rule (.ofCursor (.between front tokens depth canUnread'))) := by
  have hmachine : evaluateTokens = Machine.evaluate (some 256) :=
    funext (Machine.evaluateTokensWithin_eq (some 256))
  rw [hmachine]
  refine ⟨?_, ?_, ?_, ?_⟩
  · exact fun _ others hend => Machine.evaluate_append_of_ne_unexpectedEnd hend others
  · exact fun _ _ others hkind => Machine.evaluate_append_cons_of_end hkind others
  · exact fun _ hend => Machine.exists_take_decides hend
  · intro rule front tokens depth canUnread canUnread'
    exact Parser.ofRule_displaced rule (Session.displaced_between front tokens depth _ _)

/-- A division by zero is not undone by a number out of place behind it. -/
theorem parsing_local_at_zero_divisor :
    (∀ position, evaluateTokens [⟨.number, "1"⟩, ⟨.slash, "/"⟩, ⟨.number, "0"⟩] ≠
      .error (.grammatical (.unexpectedEnd position))) ∧
    evaluateTokens ([⟨.number, "1"⟩, ⟨.slash, "/"⟩, ⟨.number, "0"⟩] ++ [⟨.number, "2"⟩]) =
      .error (.arithmetic .divisionByZero) := by
  have hdivision : evaluateTokens [⟨.number, "1"⟩, ⟨.slash, "/"⟩, ⟨.number, "0"⟩] =
      .error (.arithmetic .divisionByZero) :=
    (Machine.evaluateTokensWithin_eq (some 256) _).trans rfl
  have hend : ∀ position, evaluateTokens [⟨.number, "1"⟩, ⟨.slash, "/"⟩, ⟨.number, "0"⟩] ≠
      .error (.grammatical (.unexpectedEnd position)) := by
    rw [hdivision]
    simp
  refine ⟨hend, ?_⟩
  rw [parsing_local.1 _ _ hend, hdivision]

end Calculator
