import Calculator.Evaluation
import Calculator.Proofs.Moves
import Calculator.Proofs.Reading

/-!
# Moves of the descent

The rules of the grammar change a cursor only by moves.  Which moves a rule makes on a
session is listed along its steps, in the order in which they are made, and the list ends
where a step fails.  Made on the cursor alone, these moves lead to where the rule leaves it,
whether it comes to a value or fails.  So each of them was possible when it was made.

Main results:

- Theorem `Parser.Makes.bind`: two steps in a row make the moves of the first and then those
  of the second.
- Theorem `Rule.makes_moves`: the moves of a rule lead to where the rule leaves the cursor.
-/

namespace Calculator

/-! ## Moves of steps -/

namespace Parser

variable {α β : Type} {parser : Parser α} {session after : Session} {answer : α}
  {cause : Interrupt}

/-- The session in which a step leaves off, whether it comes to an answer or not. -/
def final (parser : Parser α) (session : Session) : Session :=
  match parser session with
  | .ok _ after => after
  | .error _ after => after

theorem final_ok (hended : parser session = .ok answer after) : parser.final session = after := by
  rw [final, hended]

theorem final_error (hended : parser session = .error cause after) :
    parser.final session = after := by
  rw [final, hended]

/-- The moves made after a step, if it comes to an answer. -/
def onward (parser : Parser α) (session : Session)
    (rest : (answer : α) → (after : Session) →
      parser session = .ok answer after → List Move) : List Move :=
  match hended : parser session with
  | .ok answer after => rest answer after hended
  | .error _ _ => []

section Onward

variable
  {rest : (answer : α) → (after : Session) → parser session = .ok answer after → List Move}

/-- After an answer the moves are those of the rest. -/
theorem onward_ok (hended : parser session = .ok answer after) :
    parser.onward session rest = rest answer after hended := by
  unfold onward
  split
  next hended' =>
    cases hended.symm.trans hended'
    rfl
  next hended' => cases hended.symm.trans hended'

/-- After an interrupt there are no more moves. -/
theorem onward_error (hended : parser session = .error cause after) :
    parser.onward session rest = [] := by
  unfold onward
  split
  next hended' => cases hended.symm.trans hended'
  next => rfl

end Onward

/-- The move made by reading a token, if there is one. -/
def nextMoves (session : Session) : List Move :=
  next.onward session fun token _ _ => [.next token]

/-- The move made by pushing a token back, if that is not refused. -/
def unreadMoves (session : Session) : List Move :=
  unread.onward session fun _ _ _ => [.unread]

/-- The move made by opening a negation, if there is room. -/
def descendMoves (session : Session) : List Move :=
  descend.onward session fun _ _ _ => [.descend]

/-- The moves lead from the cursor of a session to where a step leaves it. -/
def Makes (parser : Parser α) (session : Session) (moves : List Move) : Prop :=
  session.cursor.replay? moves = some (parser.final session).cursor

namespace Makes

variable {continuation : α → Parser β} {moves : List Move}
  {rest : (answer : α) → (after : Session) → parser session = .ok answer after → List Move}

/-- Steps in a row make the moves of the first, and then those of the second. -/
theorem bind (hfirst : parser.Makes session moves)
    (hsecond : ∀ answer after (hended : parser session = .ok answer after),
      (continuation answer).Makes after (rest answer after hended)) :
    (parser >>= continuation).Makes session (moves ++ parser.onward session rest) := by
  unfold Makes at hfirst ⊢
  rcases hended : parser session with ⟨answer, after⟩ | ⟨cause, after⟩
  · have hrest : after.cursor.replay? _ = _ := hsecond answer after hended
    rw [final_ok hended] at hfirst
    rw [onward_ok hended, Cursor.replay?_append_of_eq_some hfirst, hrest, final, final,
      bind_ok hended]
  · rw [final_error hended] at hfirst
    rw [onward_error hended, List.append_nil, hfirst, final_error (bind_error hended)]

/-- A step that leaves the cursor alone makes no move. -/
theorem of_still (hstill : (parser.final session).cursor = session.cursor) :
    parser.Makes session [] := by
  rw [Makes, Cursor.replay?_nil, hstill]

/-- After a step that leaves the cursor alone, only the steps after it make moves. -/
theorem still_bind (hstill : (parser.final session).cursor = session.cursor)
    (hsecond : ∀ answer after (hended : parser session = .ok answer after),
      (continuation answer).Makes after (rest answer after hended)) :
    (parser >>= continuation).Makes session (parser.onward session rest) :=
  (of_still hstill).bind hsecond

/-- Steps that leave the cursor alone make no move after another step. -/
theorem bind_still (hfirst : parser.Makes session moves)
    (hstill : ∀ answer after, parser session = .ok answer after →
      ((continuation answer).final after).cursor = after.cursor) :
    (parser >>= continuation).Makes session moves := by
  have hmakes := @bind _ _ _ _ _ _ (fun _ _ _ => []) hfirst
    fun answer after hended => of_still (hstill answer after hended)
  cases hended : parser session with
  | ok answer after => rwa [onward_ok hended, List.append_nil] at hmakes
  | error cause after => rwa [onward_error hended, List.append_nil] at hmakes

/-- Reading a token is one move, if there is one to read. -/
theorem next (session : Session) : Parser.next.Makes session (nextMoves session) := by
  cases hnext : session.upcoming with
  | nil =>
      have hended := next_nil hnext
      rw [Makes, nextMoves, onward_error hended, final_error hended]
      rfl
  | cons token others =>
      have hended := next_cons hnext
      rw [Makes, nextMoves, onward_ok hended, final_ok hended, Cursor.replay?_singleton]
      exact Cursor.move?_next_eq_some_iff.mpr ⟨Session.getElem?_position hnext, rfl⟩

/-- Pushing a token back is one move, if it is not refused. -/
theorem unread (session : Session) : Parser.unread.Makes session (unreadMoves session) := by
  cases htaken : session.cursor.unread? with
  | none =>
      have hended : Parser.unread session =
          .error (.unreadRefused session.cursor.position) session := by
        rw [Parser.unread, htaken]
      rw [Makes, unreadMoves, onward_error hended, final_error hended]
      rfl
  | some cursor =>
      have hended : Parser.unread session = .ok () { session with cursor := cursor } := by
        rw [Parser.unread, htaken]
      rw [Makes, unreadMoves, onward_ok hended, final_ok hended, Cursor.replay?_singleton]
      exact htaken

/-- Opening a negation is one move, if there is room. -/
theorem descend (session : Session) : Parser.descend.Makes session (descendMoves session) := by
  by_cases hroom : session.cursor.HasRoom
  · have hended := descend_of_hasRoom hroom
    rw [Makes, descendMoves, onward_ok hended, final_ok hended, Cursor.replay?_singleton]
    exact Cursor.move?_descend_eq_some_iff.mpr ⟨hroom, rfl⟩
  · have hended := descend_of_not_hasRoom hroom
    rw [Makes, descendMoves, onward_error hended, final_error hended]
    rfl

theorem ascend (session : Session) : Parser.ascend.Makes session [.ascend] := by
  rw [Makes, final_ok (ascend_eq session), Cursor.replay?_singleton]
  rfl

/-- Giving up is no move. -/
theorem reject (problem : Nat → GrammarError) (session : Session) :
    (Parser.reject problem : Parser α).Makes session [] :=
  of_still rfl

theorem literal (text : String) (session : Session) : (Parser.literal text).Makes session [] := by
  apply of_still
  cases hread : Numeral.read text with
  | ok value => rw [final_ok (literal_ok hread)]
  | error fault => rw [final_error (literal_error hread)]

end Makes

theorem final_calculate (result : Except ArithmeticError Int64) (session : Session) :
    (calculate result).final session = session := by
  cases result with
  | ok value => exact final_ok (calculate_ok value session)
  | error error => exact final_error (calculate_error error session)

end Parser

/-! ## Moves of rules -/

namespace Phrase

/-- The moves made in reading a phrase, along the steps of its rule. -/
def moves (phrase : Phrase) (session : Session) : List Move :=
  match phrase with
  | chain level =>
      (operand level).moves (session.enter level.rule) ++
        (Parser.operand level).onward (session.enter level.rule) fun first middle _hfirst =>
          (rest level first).moves middle
  | rest level value =>
      Parser.nextMoves session ++ Parser.next.onward session fun token s _hnext =>
        match level.follow token.kind with
        | .operator op =>
            (operand level).moves s ++ (Parser.operand level).onward s fun rhs s' _hrhs =>
              (Parser.calculate (op.apply value rhs)).onward s' fun result s'' _hresult =>
                (rest level result).moves s''
        | .stop => Parser.unreadMoves s
        | .refuse => []
  | unary =>
      Parser.nextMoves (session.enter .unary) ++
        Parser.next.onward (session.enter .unary) fun token s _hnext =>
          match token.kind with
          | .minus =>
              Parser.descendMoves s ++ Parser.descend.onward s fun _ s' _hopened =>
                (chain .product).moves s' ++ Parser.product.onward s' fun _ _ _ => [.ascend]
          | _ => []
termination_by (session.remaining, phrase.rank)
decreasing_by
  · exact Prod.Lex.right _ (rank_operand_lt level)
  · have hfewer := Parser.remaining_operand_lt _hfirst
    exact Prod.Lex.left _ _ hfewer
  · exact Prod.Lex.left _ _ (Parser.remaining_next _hnext)
  · have hfewer := Parser.remaining_next _hnext
    have hfewer' := Parser.remaining_operand_lt _hrhs
    have hfewer'' := Parser.remaining_calculate_le _hresult
    exact Prod.Lex.left _ _ (by omega)
  · have hfewer := Parser.remaining_next _hnext
    have hfewer' := Parser.remaining_descend_le _hopened
    exact Prod.Lex.left _ _ (Nat.lt_of_le_of_lt hfewer' hfewer)

/-- The moves of a phrase lead to where its rule leaves the cursor.  The induction is that of
the descent: fewer tokens are left, or a phrase further inward starts at the same token. -/
theorem makes_moves (phrase : Phrase) (session : Session) :
    phrase.parser.Makes session (phrase.moves session) := by
  induction phrase, session using Phrase.induction with
  | step phrase session ih =>
    cases phrase with
    | chain level =>
        show (Parser.chain level).Makes session _
        rw [moves, Parser.chain_eq]
        have hoperand := ih (operand level) (session.enter level.rule)
          (.inr ⟨rfl, rank_operand_lt level⟩)
        rw [parser_operand] at hoperand
        refine hoperand.bind fun first middle hfirst => ?_
        have hfewer := Parser.remaining_operand_lt hfirst
        exact ih (rest level first) middle (.inl hfewer)
    | rest level value =>
        show (Parser.chainFrom level value).Makes session _
        rw [moves, Parser.chainFrom_eq]
        refine (Parser.Makes.next session).bind fun token s hnext => ?_
        have hfewer := Parser.remaining_next hnext
        cases level.follow token.kind with
        | operator op =>
            have hoperand := ih (operand level) s (.inl hfewer)
            rw [parser_operand] at hoperand
            refine hoperand.bind fun rhs s' hrhs => ?_
            have hfewer' := Parser.remaining_operand_lt hrhs
            refine .still_bind (by rw [Parser.final_calculate]) fun result s'' hresult => ?_
            have hfewer'' := Parser.remaining_calculate_le hresult
            exact ih (rest level result) s'' (.inl (by omega))
        | stop => exact (Parser.Makes.unread s).bind_still fun _ _ _ => rfl
        | refuse => exact .reject _ s
    | unary =>
        show Parser.unary.Makes session _
        rw [moves, Parser.unary_eq]
        refine (Parser.Makes.next (session.enter .unary)).bind fun token s hnext => ?_
        have hfewer := Parser.remaining_next hnext
        cases token.kind with
        | minus =>
            refine (Parser.Makes.descend s).bind fun _ s' hopened => ?_
            have hfewer' := Parser.remaining_descend_le hopened
            have hproduct := ih (chain .product) s' (.inl (Nat.lt_of_le_of_lt hfewer' hfewer))
            refine hproduct.bind fun value s'' _ => ?_
            -- the value is negated after the negation is closed, which moves nothing any more
            refine (Parser.Makes.ascend s'').bind_still fun _ released _ => ?_
            rw [Parser.final_calculate]
        | number => exact .literal token.text s
        | _ => exact .reject _ s

end Phrase

namespace Rule

/-- The moves made in reading by a rule.  An expression reads one token to see whether there
is anything to read, and pushes it back if so. -/
def moves (rule : Rule) (session : Session) : List Move :=
  match rule with
  | expression =>
      Parser.nextMoves (session.enter .expression) ++
        Parser.next.onward (session.enter .expression) fun token s _ =>
          if token.kind = .endOfInput then []
          else Parser.unreadMoves s ++ Parser.unread.onward s fun _ s' _ =>
            (Phrase.chain .sum).moves s'
  | sum => (Phrase.chain .sum).moves session
  | product => (Phrase.chain .product).moves session
  | unary => Phrase.unary.moves session

/-- The moves of a rule lead to where it leaves the cursor, on any session. -/
theorem makes_moves (rule : Rule) (session : Session) :
    (Parser.ofRule rule).Makes session (rule.moves session) := by
  cases rule with
  | expression =>
      refine (Parser.Makes.next (session.enter .expression)).bind fun token s _ => ?_
      by_cases hkind : token.kind = .endOfInput
      · rw [if_pos hkind, if_pos hkind]
        exact .of_still rfl
      · rw [if_neg hkind, if_neg hkind]
        exact (Parser.Makes.unread s).bind fun _ s' _ => (Phrase.chain .sum).makes_moves s'
  | sum => exact (Phrase.chain .sum).makes_moves session
  | product => exact (Phrase.chain .product).makes_moves session
  | unary => exact Phrase.unary.makes_moves session

end Rule

end Calculator
