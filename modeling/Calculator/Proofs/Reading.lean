import Calculator.Evaluation

/-!
# Readings

The rules of the grammar are defined together with the bounds that make them end.
This module says once what they do: a phrase is read to a value in one of five ways,
and it fails in one of thirteen.  Both are relations between the session in front of
the phrase and the session in which the reading leaves off, and all further facts on
the descent are inductions over them.

Main results:

- Theorem `Phrase.parser_eq_ok_iff`: the readings are exactly the answers of the
  parsers.
- Theorem `Phrase.parser_eq_error_iff`: the failed readings are exactly their
  failures.
- Theorem `Phrase.Reads.frame`: a reading that comes to a value gives back the
  nesting depth that it found, on the same tokens.
- Theorem `Phrase.Reads.stops`: a chain ends in front of a token that stops it.
-/

namespace Calculator

/-! ## Steps of a session -/

namespace Session

/-- The tokens behind the cursor. -/
def upcoming (session : Session) : List Token :=
  session.cursor.tokens.toList.drop session.cursor.position

/-- The session after the next token is read. -/
def advance (session : Session) : Session :=
  { session with
    cursor :=
      { session.cursor with position := session.cursor.position + 1, canUnread := true } }

/-- The session after the next token is read and pushed back. -/
def peek (session : Session) : Session :=
  { session with cursor := { session.cursor with canUnread := false } }

/-- The session with one more negation open. -/
def deepen (session : Session) : Session :=
  { session with cursor := { session.cursor with depth := session.cursor.depth + 1 } }

/-- The session with the innermost negation closed. -/
def release (session : Session) : Session :=
  { session with cursor := session.cursor.ascend }

@[simp]
theorem enter_cursor (rule : Rule) (session : Session) :
    (session.enter rule).cursor = session.cursor :=
  rfl

@[simp]
theorem advance_cursor (session : Session) :
    session.advance.cursor =
      { session.cursor with position := session.cursor.position + 1, canUnread := true } :=
  rfl

@[simp]
theorem peek_cursor (session : Session) :
    session.peek.cursor = { session.cursor with canUnread := false } :=
  rfl

@[simp]
theorem deepen_cursor (session : Session) :
    session.deepen.cursor = { session.cursor with depth := session.cursor.depth + 1 } :=
  rfl

@[simp]
theorem release_cursor (session : Session) :
    session.release.cursor = { session.cursor with depth := session.cursor.depth - 1 } :=
  rfl

@[simp]
theorem upcoming_enter (rule : Rule) (session : Session) :
    (session.enter rule).upcoming = session.upcoming :=
  rfl

@[simp]
theorem upcoming_peek (session : Session) : session.peek.upcoming = session.upcoming :=
  rfl

@[simp]
theorem upcoming_deepen (session : Session) : session.deepen.upcoming = session.upcoming :=
  rfl

@[simp]
theorem upcoming_release (session : Session) : session.release.upcoming = session.upcoming :=
  rfl

/-- Reading a token leaves the tokens after it. -/
theorem upcoming_advance {session : Session} {token : Token} {others : List Token}
    (hnext : session.upcoming = token :: others) : session.advance.upcoming = others := by
  have htail : session.upcoming.tail = others := by rw [hnext]; rfl
  rw [← htail]
  simp [upcoming, List.tail_drop]

/-- A token that is upcoming stands at the position of the cursor. -/
theorem getElem?_position {session : Session} {token : Token} {others : List Token}
    (hnext : session.upcoming = token :: others) :
    session.cursor.tokens[session.cursor.position]? = some token := by
  have hhead : session.upcoming.head? = some token := by rw [hnext]; rfl
  rw [← hhead]
  simp [upcoming]

/-- Where nothing is upcoming, the cursor stands behind all tokens. -/
theorem getElem?_position_eq_none {session : Session} (hend : session.upcoming = []) :
    session.cursor.tokens[session.cursor.position]? = none := by
  have hhead : session.upcoming.head? = none := by rw [hend]; rfl
  rw [← hhead]
  simp [upcoming]

end Session

/-- The error with which a number is rejected, from what is wrong with its text. -/
def Numeral.Fault.error (text : String) (position : Nat) : Numeral.Fault → GrammarError
  | tooLarge => .literalTooLarge text position
  | tooSmall => .malformedLiteral text position
  | malformed => .malformedLiteral text position

/-- More negations may be opened. -/
def Cursor.HasRoom (cursor : Cursor) : Prop :=
  cursor.nestingLimit.all (cursor.depth < ·) = true

namespace Parser

variable {session : Session} {token : Token} {others : List Token} {text : String}

theorem enter_eq (rule : Rule) (session : Session) :
    enter rule session = .ok () (session.enter rule) :=
  rfl

theorem ascend_eq (session : Session) : ascend session = .ok () session.release :=
  rfl

theorem calculate_ok (value : Int64) (session : Session) :
    calculate (.ok value) session = .ok value session :=
  rfl

theorem calculate_error (error : ArithmeticError) (session : Session) :
    calculate (.error error) session = .error (.failure (.arithmetic error)) session :=
  rfl

/-- The token that is upcoming is read. -/
theorem next_cons (hnext : session.upcoming = token :: others) :
    next session = .ok token session.advance := by
  simp [next, Cursor.next?, Session.getElem?_position hnext, Session.advance]

/-- With nothing upcoming, the end of the tokens is unexpected. -/
theorem next_nil (hend : session.upcoming = []) :
    next session =
      .error (.failure (.grammatical (.unexpectedEnd session.cursor.position))) session := by
  simp [next, Cursor.next?, Session.getElem?_position_eq_none hend, reject]

theorem unread_advance (session : Session) : unread session.advance = .ok () session.peek := by
  simp [unread, Cursor.unread?, Session.peek, Session.advance]

/-- Where there is room, one more negation is opened. -/
theorem descend_of_hasRoom (hroom : session.cursor.HasRoom) :
    descend session = .ok () session.deepen := by
  unfold Cursor.HasRoom at hroom
  simp [descend, Cursor.descend?, hroom, Session.deepen]

/-- Where there is no room, the nesting is too deep. -/
theorem descend_of_not_hasRoom (hfull : ¬ session.cursor.HasRoom) :
    descend session =
      .error (.failure (.grammatical (.nestingTooDeep session.cursor.position))) session := by
  unfold Cursor.HasRoom at hfull
  simp [descend, Cursor.descend?, hfull, reject]

/-- A text that has a value is answered with it. -/
theorem literal_ok {value : Int64} (hread : Numeral.read text = .ok value) :
    literal text session = .ok value session := by
  simp only [literal, hread]
  rfl

/-- A text that has no value is rejected for its fault. -/
theorem literal_error {fault : Numeral.Fault} (hread : Numeral.read text = .error fault) :
    literal text session =
      .error (.failure (.grammatical (fault.error text session.cursor.position))) session := by
  cases fault <;> simp only [literal, hread] <;> rfl

/-- After an answer the steps go on with it. -/
theorem bind_ok {α β : Type} {parser : Parser α} {continuation : α → Parser β}
    {after : Session} {answer : α} (hfirst : parser session = .ok answer after) :
    (parser >>= continuation) session = continuation answer after := by
  show EStateM.bind parser continuation session = _
  unfold EStateM.bind
  rw [hfirst]

/-- After an interrupt nothing more is done. -/
theorem bind_error {α β : Type} {parser : Parser α} {continuation : α → Parser β}
    {after : Session} {cause : Interrupt} (hfirst : parser session = .error cause after) :
    (parser >>= continuation) session = .error cause after := by
  show EStateM.bind parser continuation session = _
  unfold EStateM.bind
  rw [hfirst]

/-! ## The rules by what comes next -/

/-- A chain reads its first operand and then what follows it. -/
theorem chain_eq_at (level : Level) (session : Session) :
    chain level session =
      (operand level >>= fun value => chainFrom level value) (session.enter level.rule) := by
  rw [chain_eq, bind_ok (enter_eq _ _)]

/-- A chain goes on or stops only at a token, so the end of the tokens is unexpected. -/
theorem chainFrom_nil {level : Level} {value : Int64} (hend : session.upcoming = []) :
    chainFrom level value session =
      .error (.failure (.grammatical (.unexpectedEnd session.cursor.position))) session := by
  rw [chainFrom_eq, bind_error (next_nil hend)]

/-- At an operator of its level, a chain goes on with one more operand. -/
theorem chainFrom_operator {level : Level} {op : Operator} {value : Int64}
    (hnext : session.upcoming = token :: others)
    (hfollow : level.follow token.kind = .operator op) :
    chainFrom level value session =
      (operand level >>= fun rhs => calculate (op.apply value rhs) >>= fun result =>
        chainFrom level result) session.advance := by
  rw [chainFrom_eq, bind_ok (next_cons hnext)]
  simp only [hfollow]

/-- At a token that stops it, a chain is left in front of that token. -/
theorem chainFrom_stop {level : Level} {value : Int64}
    (hnext : session.upcoming = token :: others) (hfollow : level.follow token.kind = .stop) :
    chainFrom level value session = .ok value session.peek := by
  rw [chainFrom_eq, bind_ok (next_cons hnext)]
  simp only [hfollow]
  rw [bind_ok (unread_advance session)]
  rfl

/-- At any other token a chain is refused. -/
theorem chainFrom_refuse {level : Level} {value : Int64}
    (hnext : session.upcoming = token :: others)
    (hfollow : level.follow token.kind = .refuse) :
    chainFrom level value session =
      .error (.failure (.grammatical
        (.unexpectedToken token.text (session.cursor.position + 1)))) session.advance := by
  rw [chainFrom_eq, bind_ok (next_cons hnext)]
  simp only [hfollow]
  rfl

/-- With nothing upcoming, an operand is missing. -/
theorem unary_nil (hend : session.upcoming = []) :
    unary session =
      .error (.failure (.grammatical (.unexpectedEnd session.cursor.position)))
        (session.enter .unary) := by
  have hend' : (session.enter .unary).upcoming = [] := hend
  rw [unary_eq, bind_ok (enter_eq _ _), bind_error (next_nil hend')]
  rfl

/-- A minus negates the product behind it. -/
theorem unary_minus (hnext : session.upcoming = token :: others)
    (hkind : token.kind = .minus) :
    unary session =
      (descend >>= fun _ => product >>= fun value => ascend >>= fun _ =>
        calculate (negate value)) (session.enter .unary).advance := by
  have hnext' : (session.enter .unary).upcoming = token :: others := hnext
  rw [unary_eq, bind_ok (enter_eq _ _), bind_ok (next_cons hnext')]
  simp only [hkind]

/-- A number is read for its value. -/
theorem unary_number (hnext : session.upcoming = token :: others)
    (hkind : token.kind = .number) :
    unary session = literal token.text (session.enter .unary).advance := by
  have hnext' : (session.enter .unary).upcoming = token :: others := hnext
  rw [unary_eq, bind_ok (enter_eq _ _), bind_ok (next_cons hnext')]
  simp only [hkind]

/-- Any other token is refused in the place of an operand. -/
theorem unary_misplaced (hnext : session.upcoming = token :: others)
    (hminus : token.kind ≠ .minus) (hnumber : token.kind ≠ .number) :
    unary session =
      .error (.failure (.grammatical
        (.unexpectedToken token.text (session.cursor.position + 1))))
        (session.enter .unary).advance := by
  have hnext' : (session.enter .unary).upcoming = token :: others := hnext
  rw [unary_eq, bind_ok (enter_eq _ _), bind_ok (next_cons hnext')]
  cases hkind : token.kind with
  | minus => exact absurd hkind hminus
  | number => exact absurd hkind hnumber
  | plus => rfl
  | star => rfl
  | slash => rfl
  | endOfInput => rfl

end Parser

/-! ## The two ways in which a phrase ends -/

namespace Phrase

/-- A phrase is read to a value, from one session to another. -/
inductive Reads : Phrase → Session → Int64 → Session → Prop where
  | chain {level : Level} {session middle after : Session} {first value : Int64}
      (hoperand : Reads (operand level) (session.enter level.rule) first middle)
      (hrest : Reads (rest level first) middle value after) :
      Reads (chain level) session value after
  | more {level : Level} {session middle after : Session} {token : Token} {others : List Token}
      {op : Operator} {lhs rhs combined value : Int64}
      (hnext : session.upcoming = token :: others)
      (hfollow : level.follow token.kind = .operator op)
      (hoperand : Reads (operand level) session.advance rhs middle)
      (happly : op.apply lhs rhs = .ok combined)
      (hrest : Reads (rest level combined) middle value after) :
      Reads (rest level lhs) session value after
  | stop {level : Level} {session : Session} {token : Token} {others : List Token}
      {value : Int64}
      (hnext : session.upcoming = token :: others)
      (hfollow : level.follow token.kind = .stop) :
      Reads (rest level value) session value session.peek
  | number {session : Session} {token : Token} {others : List Token} {value : Int64}
      (hnext : session.upcoming = token :: others)
      (hkind : token.kind = .number)
      (hread : Numeral.read token.text = .ok value) :
      Reads unary session value (session.enter .unary).advance
  | negation {session middle : Session} {token : Token} {others : List Token}
      {value negated : Int64}
      (hnext : session.upcoming = token :: others)
      (hkind : token.kind = .minus)
      (hroom : session.cursor.HasRoom)
      (hproduct : Reads (chain .product) (session.enter .unary).advance.deepen value middle)
      (hnegate : negate value = .ok negated) :
      Reads unary session negated middle.release

/-- A phrase fails to be read, from one session to another. -/
inductive Fails : Phrase → Session → Failure → Session → Prop where
  | chainOperand {level : Level} {session after : Session} {cause : Failure}
      (hoperand : Fails (operand level) (session.enter level.rule) cause after) :
      Fails (chain level) session cause after
  | chainRest {level : Level} {session middle after : Session} {first : Int64}
      {cause : Failure}
      (hoperand : Reads (operand level) (session.enter level.rule) first middle)
      (hrest : Fails (rest level first) middle cause after) :
      Fails (chain level) session cause after
  | restEnd {level : Level} {session : Session} {lhs : Int64}
      (hend : session.upcoming = []) :
      Fails (rest level lhs) session (.grammatical (.unexpectedEnd session.cursor.position))
        session
  | restOperand {level : Level} {session after : Session} {token : Token}
      {others : List Token} {op : Operator} {lhs : Int64} {cause : Failure}
      (hnext : session.upcoming = token :: others)
      (hfollow : level.follow token.kind = .operator op)
      (hoperand : Fails (operand level) session.advance cause after) :
      Fails (rest level lhs) session cause after
  | restApply {level : Level} {session middle : Session} {token : Token}
      {others : List Token} {op : Operator} {lhs rhs : Int64} {error : ArithmeticError}
      (hnext : session.upcoming = token :: others)
      (hfollow : level.follow token.kind = .operator op)
      (hoperand : Reads (operand level) session.advance rhs middle)
      (happly : op.apply lhs rhs = .error error) :
      Fails (rest level lhs) session (.arithmetic error) middle
  | restMore {level : Level} {session middle after : Session} {token : Token}
      {others : List Token} {op : Operator} {lhs rhs combined : Int64} {cause : Failure}
      (hnext : session.upcoming = token :: others)
      (hfollow : level.follow token.kind = .operator op)
      (hoperand : Reads (operand level) session.advance rhs middle)
      (happly : op.apply lhs rhs = .ok combined)
      (hrest : Fails (rest level combined) middle cause after) :
      Fails (rest level lhs) session cause after
  | restRefuse {level : Level} {session : Session} {token : Token} {others : List Token}
      {lhs : Int64}
      (hnext : session.upcoming = token :: others)
      (hfollow : level.follow token.kind = .refuse) :
      Fails (rest level lhs) session
        (.grammatical (.unexpectedToken token.text (session.cursor.position + 1)))
        session.advance
  | unaryEnd {session : Session} (hend : session.upcoming = []) :
      Fails unary session (.grammatical (.unexpectedEnd session.cursor.position))
        (session.enter .unary)
  | tooDeep {session : Session} {token : Token} {others : List Token}
      (hnext : session.upcoming = token :: others)
      (hkind : token.kind = .minus)
      (hfull : ¬ session.cursor.HasRoom) :
      Fails unary session (.grammatical (.nestingTooDeep (session.cursor.position + 1)))
        (session.enter .unary).advance
  | negated {session after : Session} {token : Token} {others : List Token} {cause : Failure}
      (hnext : session.upcoming = token :: others)
      (hkind : token.kind = .minus)
      (hroom : session.cursor.HasRoom)
      (hproduct : Fails (chain .product) (session.enter .unary).advance.deepen cause after) :
      Fails unary session cause after
  | negate {session middle : Session} {token : Token} {others : List Token} {value : Int64}
      {error : ArithmeticError}
      (hnext : session.upcoming = token :: others)
      (hkind : token.kind = .minus)
      (hroom : session.cursor.HasRoom)
      (hproduct : Reads (chain .product) (session.enter .unary).advance.deepen value middle)
      (hnegate : Calculator.negate value = .error error) :
      Fails unary session (.arithmetic error) middle.release
  | literal {session : Session} {token : Token} {others : List Token}
      {fault : Numeral.Fault}
      (hnext : session.upcoming = token :: others)
      (hkind : token.kind = .number)
      (hread : Numeral.read token.text = .error fault) :
      Fails unary session
        (.grammatical (fault.error token.text (session.cursor.position + 1)))
        (session.enter .unary).advance
  | misplaced {session : Session} {token : Token} {others : List Token}
      (hnext : session.upcoming = token :: others)
      (hminus : token.kind ≠ .minus)
      (hnumber : token.kind ≠ .number) :
      Fails unary session
        (.grammatical (.unexpectedToken token.text (session.cursor.position + 1)))
        (session.enter .unary).advance

/-! ## The readings are those of the parsers -/

/-- A reading is what the parser of the phrase answers. -/
theorem Reads.parser_eq {phrase : Phrase} {session after : Session} {value : Int64}
    (hreads : Reads phrase session value after) :
    phrase.parser session = .ok value after := by
  induction hreads with
  | @chain level session middle after first value _ _ ihOperand ihRest =>
      rw [parser_operand] at ihOperand
      show Parser.chain level session = _
      rw [Parser.chain_eq_at, Parser.bind_ok ihOperand]
      exact ihRest
  | @more level session middle after token others op lhs rhs combined value hnext hfollow _
      happly _ ihOperand ihRest =>
      rw [parser_operand] at ihOperand
      show Parser.chainFrom level lhs session = _
      rw [Parser.chainFrom_operator hnext hfollow, Parser.bind_ok ihOperand, happly,
        Parser.bind_ok (Parser.calculate_ok _ _)]
      exact ihRest
  | stop hnext hfollow => exact Parser.chainFrom_stop hnext hfollow
  | @number session token others value hnext hkind hread =>
      show Parser.unary session = _
      rw [Parser.unary_number hnext hkind, Parser.literal_ok hread]
  | @negation session middle token others value negated hnext hkind hroom _ hnegate ih =>
      have hroom' : (session.enter .unary).advance.cursor.HasRoom := hroom
      have hproduct : Parser.product (session.enter .unary).advance.deepen = _ := ih
      show Parser.unary session = _
      rw [Parser.unary_minus hnext hkind, Parser.bind_ok (Parser.descend_of_hasRoom hroom'),
        Parser.bind_ok hproduct, Parser.bind_ok (Parser.ascend_eq _), hnegate,
        Parser.calculate_ok]

/-- A failed reading is what interrupts the parser of the phrase. -/
theorem Fails.parser_eq {phrase : Phrase} {session after : Session} {cause : Failure}
    (hfails : Fails phrase session cause after) :
    phrase.parser session = .error (.failure cause) after := by
  induction hfails with
  | @chainOperand level session after cause _ ih =>
      rw [parser_operand] at ih
      show Parser.chain level session = _
      rw [Parser.chain_eq_at, Parser.bind_error ih]
  | @chainRest level session middle after first cause hoperand _ ih =>
      have hfirst := hoperand.parser_eq
      rw [parser_operand] at hfirst
      show Parser.chain level session = _
      rw [Parser.chain_eq_at, Parser.bind_ok hfirst]
      exact ih
  | restEnd hend => exact Parser.chainFrom_nil hend
  | @restOperand level session after token others op lhs cause hnext hfollow _ ih =>
      rw [parser_operand] at ih
      show Parser.chainFrom level lhs session = _
      rw [Parser.chainFrom_operator hnext hfollow, Parser.bind_error ih]
  | @restApply level session middle token others op lhs rhs error hnext hfollow hoperand
      happly =>
      have hrhs := hoperand.parser_eq
      rw [parser_operand] at hrhs
      show Parser.chainFrom level lhs session = _
      rw [Parser.chainFrom_operator hnext hfollow, Parser.bind_ok hrhs, happly,
        Parser.bind_error (Parser.calculate_error _ _)]
  | @restMore level session middle after token others op lhs rhs combined cause hnext hfollow
      hoperand happly _ ih =>
      have hrhs := hoperand.parser_eq
      rw [parser_operand] at hrhs
      show Parser.chainFrom level lhs session = _
      rw [Parser.chainFrom_operator hnext hfollow, Parser.bind_ok hrhs, happly,
        Parser.bind_ok (Parser.calculate_ok _ _)]
      exact ih
  | restRefuse hnext hfollow => exact Parser.chainFrom_refuse hnext hfollow
  | unaryEnd hend => exact Parser.unary_nil hend
  | @tooDeep session token others hnext hkind hfull =>
      have hfull' : ¬ (session.enter .unary).advance.cursor.HasRoom := hfull
      show Parser.unary session = _
      rw [Parser.unary_minus hnext hkind,
        Parser.bind_error (Parser.descend_of_not_hasRoom hfull')]
      rfl
  | @negated session after token others cause hnext hkind hroom _ ih =>
      have hroom' : (session.enter .unary).advance.cursor.HasRoom := hroom
      have hproduct : Parser.product (session.enter .unary).advance.deepen = _ := ih
      show Parser.unary session = _
      rw [Parser.unary_minus hnext hkind, Parser.bind_ok (Parser.descend_of_hasRoom hroom'),
        Parser.bind_error hproduct]
  | @negate session middle token others value error hnext hkind hroom hproduct hnegate =>
      have hroom' : (session.enter .unary).advance.cursor.HasRoom := hroom
      have hvalue : Parser.product (session.enter .unary).advance.deepen = _ :=
        hproduct.parser_eq
      show Parser.unary session = _
      rw [Parser.unary_minus hnext hkind, Parser.bind_ok (Parser.descend_of_hasRoom hroom'),
        Parser.bind_ok hvalue, Parser.bind_ok (Parser.ascend_eq _), hnegate,
        Parser.calculate_error]
  | @literal session token others fault hnext hkind hread =>
      show Parser.unary session = _
      rw [Parser.unary_number hnext hkind, Parser.literal_error hread]
      rfl
  | misplaced hnext hminus hnumber => exact Parser.unary_misplaced hnext hminus hnumber

/-- An operand makes the tokens that remain fewer. -/
theorem Reads.remaining_lt {level : Level} {session after : Session} {value : Int64}
    (hreads : Reads (operand level) session value after) :
    after.remaining < session.remaining := by
  have hread := hreads.parser_eq
  rw [parser_operand] at hread
  exact Parser.remaining_operand_lt hread

/-- Every phrase is read to a value or fails, on every session. -/
theorem reads_or_fails (phrase : Phrase) (session : Session) :
    (∃ value after, Reads phrase session value after) ∨
      ∃ cause after, Fails phrase session cause after := by
  induction phrase, session using Phrase.induction with
  | step phrase session ih =>
    cases phrase with
    | chain level =>
        rcases ih (operand level) (session.enter level.rule)
            (.inr ⟨rfl, rank_operand_lt level⟩) with
          ⟨first, middle, hoperand⟩ | ⟨cause, after, hoperand⟩
        · rcases ih (rest level first) middle (.inl hoperand.remaining_lt) with
            ⟨value, after, hrest⟩ | ⟨cause, after, hrest⟩
          · exact .inl ⟨value, after, .chain hoperand hrest⟩
          · exact .inr ⟨cause, after, .chainRest hoperand hrest⟩
        · exact .inr ⟨cause, after, .chainOperand hoperand⟩
    | rest level lhs =>
        cases hnext : session.upcoming with
        | nil => exact .inr ⟨_, _, .restEnd hnext⟩
        | cons token others =>
          have hfewer := Parser.remaining_next (Parser.next_cons hnext)
          cases hfollow : level.follow token.kind with
          | stop => exact .inl ⟨_, _, .stop hnext hfollow⟩
          | refuse => exact .inr ⟨_, _, .restRefuse hnext hfollow⟩
          | operator op =>
            rcases ih (operand level) session.advance (.inl hfewer) with
              ⟨rhs, middle, hoperand⟩ | ⟨cause, after, hoperand⟩
            · cases happly : op.apply lhs rhs with
              | error error => exact .inr ⟨_, _, .restApply hnext hfollow hoperand happly⟩
              | ok combined =>
                rcases ih (rest level combined) middle
                    (.inl (Nat.lt_trans hoperand.remaining_lt hfewer)) with
                  ⟨value, after, hrest⟩ | ⟨cause, after, hrest⟩
                · exact .inl ⟨value, after, .more hnext hfollow hoperand happly hrest⟩
                · exact .inr ⟨cause, after, .restMore hnext hfollow hoperand happly hrest⟩
            · exact .inr ⟨cause, after, .restOperand hnext hfollow hoperand⟩
    | unary =>
        cases hnext : session.upcoming with
        | nil => exact .inr ⟨_, _, .unaryEnd hnext⟩
        | cons token others =>
          have hfewer := Parser.remaining_next (Parser.next_cons hnext)
          by_cases hminus : token.kind = .minus
          · by_cases hroom : session.cursor.HasRoom
            · rcases ih (chain .product) (session.enter .unary).advance.deepen
                  (.inl hfewer) with
                ⟨value, middle, hproduct⟩ | ⟨cause, after, hproduct⟩
              · cases hnegate : Calculator.negate value with
                | ok negated =>
                    exact .inl ⟨_, _, .negation hnext hminus hroom hproduct hnegate⟩
                | error error =>
                    exact .inr ⟨_, _, .negate hnext hminus hroom hproduct hnegate⟩
              · exact .inr ⟨cause, after, .negated hnext hminus hroom hproduct⟩
            · exact .inr ⟨_, _, .tooDeep hnext hminus hroom⟩
          · by_cases hnumber : token.kind = .number
            · cases hread : Numeral.read token.text with
              | ok value => exact .inl ⟨_, _, .number hnext hnumber hread⟩
              | error fault => exact .inr ⟨_, _, .literal hnext hnumber hread⟩
            · exact .inr ⟨_, _, .misplaced hnext hminus hnumber⟩

/-- The readings of a phrase are exactly the answers of its parser. -/
theorem parser_eq_ok_iff {phrase : Phrase} {session after : Session} {value : Int64} :
    phrase.parser session = .ok value after ↔ Reads phrase session value after := by
  constructor
  · intro hended
    rcases reads_or_fails phrase session with ⟨_, _, hreads⟩ | ⟨_, _, hfails⟩
    · rw [hreads.parser_eq] at hended
      cases hended
      exact hreads
    · rw [hfails.parser_eq] at hended
      cases hended
  · exact Reads.parser_eq

/-- The failed readings of a phrase are exactly the failures of its parser. -/
theorem parser_eq_error_iff {phrase : Phrase} {session after : Session} {cause : Failure} :
    phrase.parser session = .error (.failure cause) after ↔
      Fails phrase session cause after := by
  constructor
  · intro hended
    rcases reads_or_fails phrase session with ⟨_, _, hreads⟩ | ⟨_, _, hfails⟩
    · rw [hreads.parser_eq] at hended
      cases hended
    · rw [hfails.parser_eq] at hended
      cases hended
      exact hfails
  · exact Fails.parser_eq

/-! ## What a reading leaves -/

/-- A reading stays on the same tokens and closes as many negations as it opens. -/
theorem Reads.frame {phrase : Phrase} {session after : Session} {value : Int64}
    (hreads : Reads phrase session value after) :
    after.cursor.tokens = session.cursor.tokens ∧
      after.cursor.nestingLimit = session.cursor.nestingLimit ∧
      after.cursor.depth = session.cursor.depth := by
  induction hreads with
  | chain _ _ ihOperand ihRest => simp_all
  | more _ _ _ _ _ ihOperand ihRest => simp_all
  | stop => simp
  | number => simp
  | negation _ _ _ _ _ ih => simp_all

/-- The first of the tokens is one in front of which a chain of a level ends. -/
def Stops (level : Level) (tokens : List Token) : Prop :=
  ∃ token others, tokens = token :: others ∧ level.follow token.kind = .stop

/-- Reading a chain, or what is left of one, ends in front of a token that stops it. -/
theorem Reads.stops {phrase : Phrase} {session after : Session} {value : Int64}
    (hreads : Reads phrase session value after) :
    match phrase with
    | .chain level => Stops level after.upcoming
    | .rest level _ => Stops level after.upcoming
    | .unary => True := by
  induction hreads with
  | chain _ _ _ ihRest => exact ihRest
  | more _ _ _ _ _ _ ihRest => exact ihRest
  | stop hnext hfollow => exact ⟨_, _, hnext, hfollow⟩
  | number => trivial
  | negation => trivial

end Phrase

/-- A sum can go on or stop in front of every token in front of which a product ends. -/
theorem Level.sum_follow_ne_refuse {kind : Token.Kind} (hstop : product.follow kind = .stop) :
    sum.follow kind ≠ .refuse := by
  cases kind <;> simp [follow] at *

/-! ## Whole expressions -/

namespace Parser

variable {session : Session} {token : Token} {others : List Token}

/-- With nothing upcoming, an expression is missing. -/
theorem expression_nil (hend : session.upcoming = []) :
    expression session =
      .error (.failure (.grammatical (.unexpectedEnd session.cursor.position)))
        (session.enter .expression) := by
  have hend' : (session.enter .expression).upcoming = [] := hend
  rw [expression, bind_ok (enter_eq _ _), bind_error (next_nil hend')]
  rfl

/-- In front of the closing marker, an expression is empty and its value is zero. -/
theorem expression_end (hnext : session.upcoming = token :: others)
    (hkind : token.kind = .endOfInput) :
    expression session = .ok 0 (session.enter .expression).advance := by
  have hnext' : (session.enter .expression).upcoming = token :: others := hnext
  rw [expression, bind_ok (enter_eq _ _), bind_ok (next_cons hnext')]
  simp only [hkind, if_true]
  rfl

/-- An expression that does not start with the closing marker is a sum. -/
theorem expression_sum (hnext : session.upcoming = token :: others)
    (hkind : token.kind ≠ .endOfInput) :
    expression session = sum (session.enter .expression).peek := by
  have hnext' : (session.enter .expression).upcoming = token :: others := hnext
  rw [expression, bind_ok (enter_eq _ _), bind_ok (next_cons hnext')]
  simp only [hkind, if_false]
  rw [bind_ok (unread_advance _)]

end Parser

/-- The session on which the sum of an expression is read. -/
def Session.opening (nestingLimit : Option Nat) (tokens : List Token) : Session :=
  ((ofCursor (Cursor.ofTokensWithin nestingLimit tokens)).enter .expression).peek

@[simp]
theorem Session.opening_cursor (nestingLimit : Option Nat) (tokens : List Token) :
    (opening nestingLimit tokens).cursor = Cursor.ofTokensWithin nestingLimit tokens :=
  rfl

@[simp]
theorem Session.upcoming_ofTokensWithin (nestingLimit : Option Nat) (tokens : List Token) :
    (ofCursor (Cursor.ofTokensWithin nestingLimit tokens)).upcoming = tokens := by
  simp [upcoming, ofCursor, Cursor.ofTokensWithin]

@[simp]
theorem Session.upcoming_opening (nestingLimit : Option Nat) (tokens : List Token) :
    (opening nestingLimit tokens).upcoming = tokens :=
  upcoming_ofTokensWithin nestingLimit tokens

section Expression

variable {nestingLimit : Option Nat} {token : Token} {others : List Token}

theorem evaluateTokensWithin_nil (nestingLimit : Option Nat) :
    evaluateTokensWithin nestingLimit [] = .error (.grammatical (.unexpectedEnd 0)) :=
  evaluateTokensWithin_eq_error_iff.mpr
    ⟨_, Parser.expression_nil (Session.upcoming_ofTokensWithin _ _)⟩

/-- Tokens that start with the closing marker have the value zero. -/
theorem evaluateTokensWithin_end (hkind : token.kind = .endOfInput) :
    evaluateTokensWithin nestingLimit (token :: others) = .ok 0 :=
  evaluateTokensWithin_eq_ok_iff.mpr
    ⟨_, Parser.expression_end (Session.upcoming_ofTokensWithin _ _) hkind⟩

/-- The value of tokens in front of their marker is that of the sum they start with. -/
theorem evaluateTokensWithin_eq_ok_iff_reads (hkind : token.kind ≠ .endOfInput)
    {value : Int64} :
    evaluateTokensWithin nestingLimit (token :: others) = .ok value ↔
      ∃ after, Phrase.Reads (.chain .sum) (Session.opening nestingLimit (token :: others))
        value after := by
  rw [evaluateTokensWithin_eq_ok_iff,
    Parser.expression_sum (Session.upcoming_ofTokensWithin _ _) hkind]
  exact exists_congr fun after => @Phrase.parser_eq_ok_iff (.chain .sum) _ _ _

/-- The failure of tokens in front of their marker is that of the sum they start with. -/
theorem evaluateTokensWithin_eq_error_iff_fails (hkind : token.kind ≠ .endOfInput)
    {cause : Failure} :
    evaluateTokensWithin nestingLimit (token :: others) = .error cause ↔
      ∃ after, Phrase.Fails (.chain .sum) (Session.opening nestingLimit (token :: others))
        cause after := by
  rw [evaluateTokensWithin_eq_error_iff,
    Parser.expression_sum (Session.upcoming_ofTokensWithin _ _) hkind]
  exact exists_congr fun after => @Phrase.parser_eq_error_iff (.chain .sum) _ _ _

end Expression

end Calculator
