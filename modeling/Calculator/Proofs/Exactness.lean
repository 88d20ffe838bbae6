import Calculator.Proofs.Literal
import Calculator.Proofs.Machine.Simulation
import Calculator.Proofs.Reading
import Calculator.Proofs.Tree

/-!
# Exact arithmetic

An operation has a value exactly if its exact result is in range, and then that is its value.
An evaluation fails for an arithmetic reason exactly if it comes to an operation that has no
value, so the reason names an operation that was really asked for, with its operands in order.

What an evaluation comes to is a relation along the descent: each phrase is reached from the
one that calls for it.  A failure of a phrase that is reached is a failure of the evaluation.

Main results:

- Theorem `Operator.exists_apply_eq_ok_iff`: an operation has its exact result, if in range.
- Theorem `inRange_tdiv_iff`: only one quotient is out of range.
- Theorem `evaluateTokensWithin_eq_arithmetic_iff`: arithmetic failures are those of the
  operations that an evaluation comes to.
- Theorem `arithmetic_truthful`: what operations answer, and what their failures tell.
-/

namespace Calculator

/-! ## The answers of an operation -/

section Operations

variable {op : Operator} {lhs rhs : Int64}

/-- An operation has a value exactly if its exact result is in range. -/
theorem Operator.exists_apply_eq_ok_iff {n : Int} :
    (∃ value : Int64, value.toInt = n ∧ op.apply lhs rhs = .ok value) ↔
      ¬ (op = .div ∧ rhs = 0) ∧ n = op.exact lhs.toInt rhs.toInt ∧ InRange n := by
  constructor
  · rintro ⟨value, rfl, happly⟩
    rcases apply_eq_ok_iff.mp happly with ⟨hdivisor, hvalue⟩
    exact ⟨hdivisor, hvalue, inRange_toInt value⟩
  · rintro ⟨hdivisor, rfl, hrange⟩
    rcases exists_apply_eq_ok hdivisor hrange with ⟨value, happly, hvalue⟩
    exact ⟨value, hvalue, happly⟩

/-- An operation fails exactly if it divides by zero, or if its exact result is out of range. -/
theorem Operator.apply_eq_error_iff {error : ArithmeticError} :
    op.apply lhs rhs = .error error ↔
      (error = .divisionByZero ∧ op = .div ∧ rhs = 0) ∨
        (error = .overflow lhs op.symbol rhs ∧ ¬ (op = .div ∧ rhs = 0) ∧
          ¬ InRange (op.exact lhs.toInt rhs.toInt)) := by
  by_cases hdivisor : op = .div ∧ rhs = 0
  · rw [apply_eq_divisionByZero hdivisor]
    simp [hdivisor, eq_comm]
  · by_cases hrange : InRange (op.exact lhs.toInt rhs.toInt)
    · rcases exists_apply_eq_ok hdivisor hrange with ⟨value, happly, -⟩
      simp [happly, hdivisor, hrange]
    · simp [apply_eq_overflow hdivisor hrange, hdivisor, hrange, eq_comm]

theorem Operator.apply_eq_divisionByZero_iff :
    op.apply lhs rhs = .error .divisionByZero ↔ op = .div ∧ rhs = 0 := by
  simp [apply_eq_error_iff]

/-- An overflow names the operation, and the exact result is out of range. -/
theorem Operator.apply_eq_overflow_iff {lhs' rhs' : Int64} {symbol : Char} :
    op.apply lhs rhs = .error (.overflow lhs' symbol rhs') ↔
      (lhs' = lhs ∧ symbol = op.symbol ∧ rhs' = rhs) ∧ ¬ (op = .div ∧ rhs = 0) ∧
        ¬ InRange (op.exact lhs.toInt rhs.toInt) := by
  simp [apply_eq_error_iff]

/-- Of all quotients, only that of the least value by minus one is out of range. -/
theorem inRange_tdiv_iff (hzero : rhs ≠ 0) :
    InRange (lhs.toInt.tdiv rhs.toInt) ↔ ¬ (lhs = Int64.minValue ∧ rhs = -1) := by
  constructor
  · rintro hrange ⟨rfl, rfl⟩
    exact absurd hrange (by decide)
  · intro hcorner
    have hlhs := inRange_iff.mp (inRange_toInt lhs)
    have hrhs : rhs.toInt ≠ 0 := fun hsame => hzero (Int64.toInt_inj.mp hsame)
    have hquotient := Int.natAbs_tdiv lhs.toInt rhs.toInt
    rw [inRange_iff]
    by_cases hunit : rhs.toInt.natAbs = 1
    · rcases Int.natAbs_eq_iff.mp hunit with hone | hminus
      · rw [hone]
        simpa using hlhs
      · have hleast : lhs.toInt ≠ -9223372036854775808 := fun hsame =>
          hcorner ⟨Int64.toInt_inj.mp hsame, Int64.toInt_inj.mp hminus⟩
        rw [hminus]
        simp only [Int.natCast_one, Int.tdiv_neg, Int.tdiv_one]
        omega
    · -- a divisor of larger magnitude halves that of the quotient at least
      have hhalf : lhs.toInt.natAbs / rhs.toInt.natAbs ≤ lhs.toInt.natAbs / 2 :=
        Nat.div_le_div_left (by omega) (by omega)
      have hle : (lhs.toInt.tdiv rhs.toInt).natAbs ≤ lhs.toInt.natAbs / 2 :=
        hquotient.trans_le hhalf
      omega

end Operations

/-! ## What an evaluation comes to -/

namespace Phrase

/-- The phrases that an evaluation of the tokens comes to, each with the session in front of
it: the sum of the expression, and from each phrase those that it calls for. -/
inductive Reached (nestingLimit : Option Nat) (tokens : List Token) :
    Phrase → Session → Prop where
  | sum {token : Token} {others : List Token}
      (htokens : tokens = token :: others)
      (hkind : token.kind ≠ .endOfInput) :
      Reached nestingLimit tokens (chain .sum) (.opening nestingLimit tokens)
  | operand {level : Level} {session : Session}
      (hchain : Reached nestingLimit tokens (chain level) session) :
      Reached nestingLimit tokens (operand level) (session.enter level.rule)
  | rest {level : Level} {session middle : Session} {first : Int64}
      (hchain : Reached nestingLimit tokens (chain level) session)
      (hoperand : Reads (operand level) (session.enter level.rule) first middle) :
      Reached nestingLimit tokens (rest level first) middle
  | restOperand {level : Level} {session : Session} {token : Token} {others : List Token}
      {op : Operator} {lhs : Int64}
      (hrest : Reached nestingLimit tokens (rest level lhs) session)
      (hnext : session.upcoming = token :: others)
      (hfollow : level.follow token.kind = .operator op) :
      Reached nestingLimit tokens (operand level) session.advance
  | restMore {level : Level} {session middle : Session} {token : Token} {others : List Token}
      {op : Operator} {lhs rhs combined : Int64}
      (hrest : Reached nestingLimit tokens (rest level lhs) session)
      (hnext : session.upcoming = token :: others)
      (hfollow : level.follow token.kind = .operator op)
      (hoperand : Reads (operand level) session.advance rhs middle)
      (happly : op.apply lhs rhs = .ok combined) :
      Reached nestingLimit tokens (rest level combined) middle
  | product {session : Session} {token : Token} {others : List Token}
      (hunary : Reached nestingLimit tokens unary session)
      (hnext : session.upcoming = token :: others)
      (hkind : token.kind = .minus)
      (hroom : session.cursor.HasRoom) :
      Reached nestingLimit tokens (chain .product) (session.enter .unary).advance.deepen

variable {nestingLimit : Option Nat} {tokens : List Token} {phrase : Phrase}
  {session after : Session}

/-- An evaluation stays on its tokens. -/
theorem Reached.tokens_eq (hreached : Reached nestingLimit tokens phrase session) :
    session.cursor.tokens = tokens.toArray := by
  induction hreached with
  | sum => rfl
  | operand _ ih => exact ih
  | rest _ hoperand ih => exact hoperand.frame.1.trans ih
  | restOperand _ _ _ ih => exact ih
  | restMore _ _ _ hoperand _ ih => exact hoperand.frame.1.trans ih
  | product _ _ _ _ ih => exact ih

/-- A failure of a phrase that is reached is one of the evaluation. -/
theorem Reached.evaluate_eq {cause : Failure}
    (hreached : Reached nestingLimit tokens phrase session)
    (hfails : Fails phrase session cause after) :
    evaluateTokensWithin nestingLimit tokens = .error cause := by
  induction hreached with
  | sum htokens hkind =>
      subst htokens
      exact (evaluateTokensWithin_eq_error_iff_fails hkind).mpr ⟨_, hfails⟩
  | operand _ ih => exact ih (.chainOperand hfails)
  | rest _ hoperand ih => exact ih (.chainRest hoperand hfails)
  | restOperand _ hnext hfollow ih => exact ih (.restOperand hnext hfollow hfails)
  | restMore _ hnext hfollow hoperand happly ih =>
      exact ih (.restMore hnext hfollow hoperand happly hfails)
  | product _ hnext hkind hroom ih => exact ih (.negated hnext hkind hroom hfails)

end Phrase

/-- The operations that an evaluation of the tokens comes to, with the values of their
operands.  On the left of an operator is what the chain came to so far, and on its right the
operand behind it.  A negation has zero on the left. -/
inductive Attempts (nestingLimit : Option Nat) (tokens : List Token) :
    Operator → Int64 → Int64 → Prop where
  | chained {level : Level} {session middle : Session} {token : Token} {others : List Token}
      {op : Operator} {lhs rhs : Int64}
      (hrest : Phrase.Reached nestingLimit tokens (.rest level lhs) session)
      (hnext : session.upcoming = token :: others)
      (hfollow : level.follow token.kind = .operator op)
      (hoperand : Phrase.Reads (.operand level) session.advance rhs middle) :
      Attempts nestingLimit tokens op lhs rhs
  | negation {session middle : Session} {token : Token} {others : List Token} {value : Int64}
      (hunary : Phrase.Reached nestingLimit tokens .unary session)
      (hnext : session.upcoming = token :: others)
      (hkind : token.kind = .minus)
      (hroom : session.cursor.HasRoom)
      (hproduct : Phrase.Reads (.chain .product) (session.enter .unary).advance.deepen value
        middle) :
      Attempts nestingLimit tokens .sub 0 value

section Failures

variable {nestingLimit : Option Nat} {tokens : List Token} {op : Operator} {lhs rhs : Int64}
  {error : ArithmeticError}

/-- An operation without a value fails the evaluation that comes to it. -/
theorem Attempts.evaluate_eq (hattempts : Attempts nestingLimit tokens op lhs rhs)
    (happly : op.apply lhs rhs = .error error) :
    evaluateTokensWithin nestingLimit tokens = .error (.arithmetic error) := by
  cases hattempts with
  | chained hrest hnext hfollow hoperand =>
      exact hrest.evaluate_eq (.restApply hnext hfollow hoperand happly)
  | negation hunary hnext hkind hroom hproduct =>
      rw [← negate_eq_sub] at happly
      exact hunary.evaluate_eq (.negate hnext hkind hroom hproduct happly)

/-- A phrase that is reached and fails for an arithmetic reason comes to an operation that has
no value for this reason. -/
theorem Phrase.Reached.exists_attempts {phrase : Phrase} {session after : Session}
    {cause : Failure} (hreached : Reached nestingLimit tokens phrase session)
    (hfails : Fails phrase session cause after) (hcause : cause = .arithmetic error) :
    ∃ op lhs rhs, Attempts nestingLimit tokens op lhs rhs ∧ op.apply lhs rhs = .error error := by
  induction hfails with
  | chainOperand _ ih => exact ih hreached.operand hcause
  | chainRest hoperand _ ih => exact ih (hreached.rest hoperand) hcause
  | restOperand hnext hfollow _ ih => exact ih (hreached.restOperand hnext hfollow) hcause
  | restMore hnext hfollow hoperand happly _ ih =>
      exact ih (hreached.restMore hnext hfollow hoperand happly) hcause
  | negated hnext hkind hroom _ ih => exact ih (hreached.product hnext hkind hroom) hcause
  | restApply hnext hfollow hoperand happly =>
      cases hcause
      exact ⟨_, _, _, .chained hreached hnext hfollow hoperand, happly⟩
  | negate hnext hkind hroom hproduct hnegate =>
      cases hcause
      rw [negate_eq_sub] at hnegate
      exact ⟨_, _, _, .negation hreached hnext hkind hroom hproduct, hnegate⟩
  | restEnd | restRefuse | unaryEnd | tooDeep | literal | misplaced => cases hcause

/-- Evaluations fail for arithmetic reasons exactly if they come to operations that do. -/
theorem evaluateTokensWithin_eq_arithmetic_iff :
    evaluateTokensWithin nestingLimit tokens = .error (.arithmetic error) ↔
      ∃ op lhs rhs,
        Attempts nestingLimit tokens op lhs rhs ∧ op.apply lhs rhs = .error error := by
  constructor
  · intro hresult
    cases tokens with
    | nil =>
        rw [evaluateTokensWithin_nil] at hresult
        cases hresult
    | cons token others =>
        by_cases hkind : token.kind = .endOfInput
        · rw [evaluateTokensWithin_end hkind] at hresult
          cases hresult
        · rcases (evaluateTokensWithin_eq_error_iff_fails hkind).mp hresult with ⟨after, hfails⟩
          exact (Phrase.Reached.sum rfl hkind).exists_attempts hfails rfl
  · rintro ⟨op, lhs, rhs, hattempts, happly⟩
    exact hattempts.evaluate_eq happly

/-- A division comes about by a slash with its divisor behind it. -/
theorem Attempts.exists_slash (hattempts : Attempts nestingLimit tokens .div lhs rhs) :
    ∃ (i : Nat) (token : Token) (session after : Session),
      tokens[i]? = some token ∧ token.kind = .slash ∧
        Phrase.Reached nestingLimit tokens .unary session ∧ session.cursor.position = i + 1 ∧
          Parser.unary session = .ok rhs after := by
  cases hattempts with
  | @chained level session middle token others _ _ _ hrest hnext hfollow hoperand =>
      rcases Level.follow_eq_operator_iff.mp hfollow with ⟨hkind, hlevel⟩
      subst hlevel
      have htoken := Session.getElem?_position hnext
      rw [hrest.tokens_eq, List.getElem?_toArray] at htoken
      exact ⟨_, token, session.advance, middle, htoken, hkind, hrest.restOperand hnext hfollow,
        rfl, hoperand.parser_eq⟩

end Failures

/-- Arithmetic is exact and its failures are truthful.  An operation has a value exactly if its
exact result is in range, and a divisor is not zero.  Otherwise it fails with its own symbol and
operands, or for the divisor.  Negating is subtracting from zero, failures included.  So if an
evaluation overflows, the operation it names was come to, on the operands it names, and its exact
result is out of range; and if a divisor is zero, then it is the operand behind some slash. -/
theorem arithmetic_truthful :
    (∀ n, InRange n ↔ -2 ^ 63 ≤ n ∧ n ≤ 2 ^ 63 - 1) ∧
    (∀ (lhs rhs : Int64) (n : Int),
      ((∃ value : Int64, value.toInt = n ∧ Operator.add.apply lhs rhs = .ok value) ↔
        n = lhs.toInt + rhs.toInt ∧ InRange n) ∧
      ((∃ value : Int64, value.toInt = n ∧ Operator.sub.apply lhs rhs = .ok value) ↔
        n = lhs.toInt - rhs.toInt ∧ InRange n) ∧
      ((∃ value : Int64, value.toInt = n ∧ Operator.mul.apply lhs rhs = .ok value) ↔
        n = lhs.toInt * rhs.toInt ∧ InRange n) ∧
      ((∃ value : Int64, value.toInt = n ∧ Operator.div.apply lhs rhs = .ok value) ↔
        rhs ≠ 0 ∧ n = lhs.toInt.tdiv rhs.toInt ∧ InRange n)) ∧
    (∀ (op : Operator) (lhs rhs : Int64) (error : ArithmeticError),
      op.apply lhs rhs = .error error ↔
        (error = .divisionByZero ∧ op = .div ∧ rhs = 0) ∨
          (error = .overflow lhs op.symbol rhs ∧ ¬ (op = .div ∧ rhs = 0) ∧
            ¬ InRange (op.exact lhs.toInt rhs.toInt))) ∧
    (∀ lhs rhs : Int64, Operator.div.apply lhs rhs = .error (.overflow lhs '/' rhs) ↔
      lhs = Int64.minValue ∧ rhs = -1) ∧
    (∀ value, negate value = Operator.sub.apply 0 value) ∧
    (∀ tokens lhs symbol rhs,
      evaluateTokens tokens = .error (.arithmetic (.overflow lhs symbol rhs)) →
        ∃ op : Operator, op.symbol = symbol ∧ Attempts (some 256) tokens op lhs rhs ∧
          ¬ InRange (op.exact lhs.toInt rhs.toInt)) ∧
    ∀ tokens, evaluateTokens tokens = .error (.arithmetic .divisionByZero) →
      ∃ (i : Nat) (token : Token) (session after : Session),
        tokens[i]? = some token ∧ token.kind = .slash ∧
          session.cursor.tokens = tokens.toArray ∧ session.cursor.position = i + 1 ∧
            Phrase.Reached (some 256) tokens .unary session ∧
              Parser.unary session = .ok 0 after := by
  refine ⟨fun _ => inRange_iff_pow, ?_, fun _ _ _ _ => Operator.apply_eq_error_iff, ?_,
    negate_eq_sub, ?_, ?_⟩
  · intro lhs rhs n
    simp [Operator.exists_apply_eq_ok_iff, Operator.exact]
  · intro lhs rhs
    by_cases hzero : rhs = 0
    · simp [Operator.apply_eq_divisionByZero, hzero]
    · have hexact : ¬ InRange (Operator.div.exact lhs.toInt rhs.toInt) ↔ _ :=
        not_congr (inRange_tdiv_iff hzero)
      rw [Operator.apply_eq_overflow_iff, hexact]
      simp [Operator.symbol, hzero]
  · intro tokens lhs symbol rhs hresult
    rcases evaluateTokensWithin_eq_arithmetic_iff.mp hresult with
      ⟨op, lhs', rhs', hattempts, happly⟩
    rcases Operator.apply_eq_overflow_iff.mp happly with ⟨⟨rfl, rfl, rfl⟩, -, hrange⟩
    exact ⟨op, rfl, hattempts, hrange⟩
  · intro tokens hresult
    rcases evaluateTokensWithin_eq_arithmetic_iff.mp hresult with
      ⟨op, lhs, rhs, hattempts, happly⟩
    rcases Operator.apply_eq_divisionByZero_iff.mp happly with ⟨rfl, rfl⟩
    rcases hattempts.exists_slash with ⟨i, token, session, after, htoken, hkind, hreached,
      hposition, hunary⟩
    exact ⟨i, token, session, after, htoken, hkind, hreached.tokens_eq, hposition, hreached,
      hunary⟩

/-- The negation of zero is a divisor of zero, behind the only slash.  A product overflows inside
of the negation that covers it. -/
theorem arithmetic_truthful_at_negations :
    (evaluateTokens [⟨.number, "1"⟩, ⟨.slash, "/"⟩, ⟨.minus, "-"⟩, ⟨.number, "0"⟩,
        Token.endOfInput] = .error (.arithmetic .divisionByZero) ∧
      ∃ session after, session.cursor.position = 2 ∧ Parser.unary session = .ok 0 after) ∧
    evaluateTokens [⟨.minus, "-"⟩, ⟨.number, "9223372036854775807"⟩, ⟨.star, "*"⟩,
        ⟨.number, "2"⟩, Token.endOfInput] =
          .error (.arithmetic (.overflow 9223372036854775807 '*' 2)) ∧
      ¬ InRange (Operator.mul.exact 9223372036854775807 2) := by
  have hzero : evaluateTokens [⟨.number, "1"⟩, ⟨.slash, "/"⟩, ⟨.minus, "-"⟩, ⟨.number, "0"⟩,
      Token.endOfInput] = .error (.arithmetic .divisionByZero) :=
    (Machine.evaluateTokensWithin_eq (some 256) _).trans rfl
  have hoverflow : evaluateTokens [⟨.minus, "-"⟩, ⟨.number, "9223372036854775807"⟩, ⟨.star, "*"⟩,
      ⟨.number, "2"⟩, Token.endOfInput] =
        .error (.arithmetic (.overflow 9223372036854775807 '*' 2)) :=
    (Machine.evaluateTokensWithin_eq (some 256) _).trans rfl
  rcases arithmetic_truthful with ⟨-, -, -, -, -, hoverflows, hzeros⟩
  rcases hzeros _ hzero with ⟨i, token, session, after, htoken, hkind, -, hposition, -, hunary⟩
  rcases hoverflows _ _ _ _ hoverflow with ⟨op, hsymbol, -, hrange⟩
  have hi : i = 1 := by
    rcases i with _ | _ | _ | _ | _ | i <;> simp at htoken <;> subst htoken <;> cases hkind
    rfl
  have hop : op = .mul := by cases op <;> simp [Operator.symbol] at hsymbol ⊢
  subst hi hop
  exact ⟨⟨hzero, session, after, hposition, hunary⟩, hoverflow, hrange⟩

end Calculator
