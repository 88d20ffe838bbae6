import Calculator.Proofs.Machine
import Calculator.Proofs.Reading

/-!
# The machine follows the descent

The machine is in step with the descent at the borders of phrases.  A product that is
read turns a state that expects an operand into one that has it; an operand of a
product is combined with what waits in the top frame; a sum ends with the answer.
The negations open in the descent are the frames above the bottom one.

A product pushes back the token that ends it, and each product around it reads that
token again.  The machine reads it once and closes all frames, which is the same as
closing one frame and leaving the token to the rest.

Main results:

- Theorem `Machine.follows_of_reads`: the machine follows every phrase that is read.
- Theorem `Machine.failsWith_of_fails`: the machine fails as every phrase fails.
- Theorem `evaluateTokens_eq_evaluate`: evaluating a token sequence is running the
  machine on it.
-/

namespace Calculator
namespace Machine

open Phrase

/-- Go on from a state on the tokens behind the cursor of a session. -/
def resume (state : State) (session : Session) : Except Failure Int64 :=
  run session.cursor.nestingLimit state session.cursor.position session.upcoming

section Resume

variable {session : Session} {token : Token} {others : List Token}

/-- The machine resumes with one step for the next token. -/
theorem resume_cons (state : State) (hnext : session.upcoming = token :: others) :
    resume state session =
      (step session.cursor.nestingLimit state (session.cursor.position + 1) token >>= fun next =>
        resume next session.advance) := by
  rw [resume, hnext, run_cons]
  simp only [resume, Session.upcoming_advance hnext]
  rfl

/-- With nothing upcoming, the machine answers for the end of the tokens. -/
theorem resume_nil (state : State) (hend : session.upcoming = []) :
    resume state session = state.answer session.cursor.position := by
  rw [resume, hend, run_nil]

@[simp]
theorem resume_done (value : Int64) (session : Session) :
    resume (.done value) session = .ok value :=
  run_done _ _ _ _

/-- In front of a token that ends the product, the innermost negation may be closed
before the token is read. -/
theorem resume_close (hstops : Stops .product session.upcoming) (sum frame : Option Pending)
    (below : List (Option Pending)) (value : Int64) :
    resume (.operator sum (frame :: below) value) session = (do
      let negated ← (negate value).mapError .arithmetic
      let combined ← combine frame negated
      resume (.operator sum below combined) session) := by
  rcases hstops with ⟨token, others, hnext, hfollow⟩
  simp only [resume_cons _ hnext, step, stepOperator_close hfollow, bind_assoc]

/-- In front of a token that ends the product, the product may be added to the pending
sum before the token is read. -/
theorem resume_settle (hstops : Stops .product session.upcoming) (sum : Option Pending)
    (value : Int64) :
    resume (.operator sum [] value) session =
      (combine sum value >>= fun total => resume (.operator none [] total) session) := by
  rcases hstops with ⟨token, others, hnext, hfollow⟩
  rw [resume_cons _ hnext, step, stepOperator_settle hfollow, bind_assoc]
  apply bind_congr
  intro total
  rw [resume_cons _ hnext, step]

end Resume

/-! ## Successful readings -/

/-- What the machine does on a phrase that is read to a value.  The frames below the
top one stand for the negations open. -/
def Follows : Phrase → Session → Int64 → Session → Prop
  | .chain .product, session, value, after =>
      ∀ sum below, below.length = session.cursor.depth →
        resume (.operand sum below none) session = resume (.operator sum below value) after
  | .rest .product lhs, session, value, after =>
      ∀ sum below, below.length = session.cursor.depth →
        resume (.operator sum below lhs) session = resume (.operator sum below value) after
  | .unary, session, value, after =>
      ∀ sum below top, below.length = session.cursor.depth →
        resume (.operand sum below top) session =
          (combine top value >>= fun combined => resume (.operator sum below combined) after)
  | .chain .sum, session, value, _ =>
      session.cursor.depth = 0 → resume (.operand none [] none) session = .ok value
  | .rest .sum lhs, session, value, _ =>
      session.cursor.depth = 0 → Stops .product session.upcoming →
        resume (.operator none [] lhs) session = .ok value

theorem combine_none (rhs : Int64) : combine none rhs = .ok rhs :=
  rfl

theorem combine_ok {op : Operator} {lhs rhs combined : Int64}
    (happly : op.apply lhs rhs = .ok combined) :
    combine (some ⟨lhs, op⟩) rhs = .ok combined := by
  simp only [combine, happly]
  rfl

theorem combine_error {op : Operator} {lhs rhs : Int64} {error : ArithmeticError}
    (happly : op.apply lhs rhs = .error error) :
    combine (some ⟨lhs, op⟩) rhs = .error (.arithmetic error) := by
  simp only [combine, happly]
  rfl

theorem literal_ok {text : String} {value : Int64} (position : Nat)
    (hread : Numeral.read text = .ok value) : literal text position = .ok value := by
  simp only [literal, hread]

theorem literal_error {text : String} {fault : Numeral.Fault} (position : Nat)
    (hread : Numeral.read text = .error fault) :
    literal text position = .error (.grammatical (fault.error text position)) := by
  cases fault <;> simp only [literal, hread] <;> rfl

/-- The first operand of a product has nothing in the top frame to wait for it. -/
theorem Follows.first_product {session middle : Session} {first : Int64}
    (hoperand : Follows .unary session first middle) (sum : Option Pending)
    {below : List (Option Pending)} (hbelow : below.length = session.cursor.depth) :
    resume (.operand sum below none) session = resume (.operator sum below first) middle := by
  have hfirst := hoperand sum below none hbelow
  rwa [combine_none] at hfirst

/-- One more operand of a product is combined with what waits in the top frame. -/
theorem Follows.more_product {session middle : Session} {token : Token} {others : List Token}
    {op : Operator} {lhs rhs : Int64} {sum : Option Pending} {below : List (Option Pending)}
    (hoperand : Follows .unary session.advance rhs middle)
    (hnext : session.upcoming = token :: others)
    (hfollow : Level.product.follow token.kind = .operator op)
    (hbelow : below.length = session.cursor.depth) :
    resume (.operator sum below lhs) session =
      (combine (some ⟨lhs, op⟩) rhs >>= fun combined =>
        resume (.operator sum below combined) middle) := by
  rw [resume_cons _ hnext, step, stepOperator_product hfollow]
  exact hoperand sum below (some ⟨lhs, op⟩) hbelow

/-- One more operand of a sum is combined with the sum so far. -/
theorem Follows.more_sum {session middle : Session} {token : Token} {others : List Token}
    {op : Operator} {lhs rhs : Int64}
    (hoperand : Follows (.chain .product) session.advance rhs middle)
    (hstops : Stops .product middle.upcoming) (hnext : session.upcoming = token :: others)
    (hfollow : Level.sum.follow token.kind = .operator op) (hzero : session.cursor.depth = 0) :
    resume (.operator none [] lhs) session =
      (combine (some ⟨lhs, op⟩) rhs >>= fun total =>
        resume (.operator none [] total) middle) := by
  rw [resume_cons _ hnext, step, stepOperator_sum hfollow, ← resume_settle hstops]
  exact hoperand (some ⟨lhs, op⟩) [] hzero.symm

/-- The machine follows every reading. -/
theorem follows_of_reads {phrase : Phrase} {session after : Session} {value : Int64}
    (hreads : Reads phrase session value after) : Follows phrase session value after := by
  induction hreads with
  | @chain level session middle after first value hoperand hrest ihOperand ihRest =>
      rcases hoperand.frame with ⟨-, -, hdepth⟩
      cases level with
      | product =>
          intro sum below hbelow
          have hfirst := ihOperand.first_product sum hbelow
          exact hfirst.trans (ihRest sum below (hbelow.trans hdepth.symm))
      | sum =>
          intro hzero
          have hfirst := ihOperand none [] hzero.symm
          exact hfirst.trans (ihRest (hdepth.trans hzero) hoperand.stops)
  | @more level session middle after token others op lhs rhs combined value hnext hfollow
      hoperand happly hrest ihOperand ihRest =>
      rcases hoperand.frame with ⟨-, -, hdepth⟩
      cases level with
      | product =>
          intro sum below hbelow
          rw [ihOperand.more_product hnext hfollow hbelow, combine_ok happly]
          exact ihRest sum below (hbelow.trans hdepth.symm)
      | sum =>
          intro hzero _
          rw [ihOperand.more_sum hoperand.stops hnext hfollow hzero, combine_ok happly]
          exact ihRest (hdepth.trans hzero) hoperand.stops
  | @stop level session token others value hnext hfollow =>
      cases level with
      | product => exact fun _ _ _ => rfl
      | sum =>
          intro _ _
          rw [resume_cons _ hnext, step, stepOperator_end hfollow]
          exact resume_done value _
  | @number session token others value hnext hkind hread =>
      intro sum below top _
      rw [resume_cons _ hnext, step, stepOperand_number hkind, literal_ok _ hread]
      show ((combine top value >>= fun combined => .ok (.operator sum below combined)) >>=
        fun next => resume next session.advance) = _
      rw [bind_assoc]
      rfl
  | @negation session middle token others value negated hnext hkind hroom hproduct hnegate ih =>
      intro sum below top hbelow
      rw [resume_cons _ hnext, step, stepOperand_minus hkind (hbelow ▸ hroom)]
      have hvalue := ih sum (top :: below) (congrArg (· + 1) hbelow)
      rw [resume_close hproduct.stops, hnegate] at hvalue
      exact hvalue

/-! ## Failed readings -/

/-- What the machine does on a phrase that fails. -/
def FailsWith : Phrase → Session → Failure → Prop
  | .chain .product, session, cause =>
      ∀ sum below, below.length = session.cursor.depth →
        resume (.operand sum below none) session = .error cause
  | .rest .product lhs, session, cause =>
      ∀ sum below, below.length = session.cursor.depth →
        resume (.operator sum below lhs) session = .error cause
  | .unary, session, cause =>
      ∀ sum below top, below.length = session.cursor.depth →
        resume (.operand sum below top) session = .error cause
  | .chain .sum, session, cause =>
      session.cursor.depth = 0 → resume (.operand none [] none) session = .error cause
  | .rest .sum lhs, session, cause =>
      session.cursor.depth = 0 → Stops .product session.upcoming →
        resume (.operator none [] lhs) session = .error cause

/-- The machine fails with every reading that fails. -/
theorem failsWith_of_fails {phrase : Phrase} {session after : Session} {cause : Failure}
    (hfails : Fails phrase session cause after) : FailsWith phrase session cause := by
  induction hfails with
  | @chainOperand level session after cause hoperand ih =>
      cases level with
      | product => exact fun sum below hbelow => ih sum below none hbelow
      | sum => exact fun hzero => ih none [] hzero.symm
  | @chainRest level session middle after first cause hoperand hrest ih =>
      rcases hoperand.frame with ⟨-, -, hdepth⟩
      have hfollows := follows_of_reads hoperand
      cases level with
      | product =>
          intro sum below hbelow
          have hfirst := hfollows.first_product sum hbelow
          exact hfirst.trans (ih sum below (hbelow.trans hdepth.symm))
      | sum =>
          intro hzero
          have hfirst := hfollows none [] hzero.symm
          exact hfirst.trans (ih (hdepth.trans hzero) hoperand.stops)
  | @restEnd level session lhs hend =>
      cases level with
      | product =>
          intro sum below _
          rw [resume_nil _ hend]
          rfl
      | sum =>
          intro _ _
          rw [resume_nil _ hend]
          rfl
  | @restOperand level session after token others op lhs cause hnext hfollow hoperand ih =>
      cases level with
      | product =>
          intro sum below hbelow
          rw [resume_cons _ hnext, step, stepOperator_product hfollow]
          exact ih sum below (some ⟨lhs, op⟩) hbelow
      | sum =>
          intro hzero _
          rw [resume_cons _ hnext, step, stepOperator_sum hfollow]
          exact ih (some ⟨lhs, op⟩) [] hzero.symm
  | @restApply level session middle token others op lhs rhs error hnext hfollow hoperand
      happly =>
      have hfollows := follows_of_reads hoperand
      cases level with
      | product =>
          intro sum below hbelow
          rw [hfollows.more_product hnext hfollow hbelow, combine_error happly]
          rfl
      | sum =>
          intro hzero _
          rw [hfollows.more_sum hoperand.stops hnext hfollow hzero, combine_error happly]
          rfl
  | @restMore level session middle after token others op lhs rhs combined cause hnext hfollow
      hoperand happly hrest ih =>
      rcases hoperand.frame with ⟨-, -, hdepth⟩
      have hfollows := follows_of_reads hoperand
      cases level with
      | product =>
          intro sum below hbelow
          rw [hfollows.more_product hnext hfollow hbelow, combine_ok happly]
          exact ih sum below (hbelow.trans hdepth.symm)
      | sum =>
          intro hzero _
          rw [hfollows.more_sum hoperand.stops hnext hfollow hzero, combine_ok happly]
          exact ih (hdepth.trans hzero) hoperand.stops
  | @restRefuse level session token others lhs hnext hfollow =>
      cases level with
      | product =>
          intro sum below _
          rw [resume_cons _ hnext, step, stepOperator_refuse hfollow]
          rfl
      | sum =>
          -- a sum is only ever left in front of a token that a sum can read
          rintro _ ⟨token', others', hnext', hstop⟩
          rw [hnext] at hnext'
          cases hnext'
          exact absurd hfollow (Level.sum_follow_ne_refuse hstop)
  | @unaryEnd session hend =>
      intro sum below top _
      rw [resume_nil _ hend]
      rfl
  | @tooDeep session token others hnext hkind hfull =>
      intro sum below top hbelow
      rw [resume_cons _ hnext, step, stepOperand_tooDeep hkind (hbelow ▸ hfull)]
      rfl
  | @negated session after token others cause hnext hkind hroom hproduct ih =>
      intro sum below top hbelow
      rw [resume_cons _ hnext, step, stepOperand_minus hkind (hbelow ▸ hroom)]
      exact ih sum (top :: below) (congrArg (· + 1) hbelow)
  | @negate session middle token others value error hnext hkind hroom hproduct hnegate =>
      intro sum below top hbelow
      rw [resume_cons _ hnext, step, stepOperand_minus hkind (hbelow ▸ hroom)]
      have hvalue := follows_of_reads hproduct sum (top :: below) (congrArg (· + 1) hbelow)
      rw [resume_close hproduct.stops, hnegate] at hvalue
      exact hvalue
  | @literal session token others fault hnext hkind hread =>
      intro sum below top _
      rw [resume_cons _ hnext, step, stepOperand_number hkind, literal_error _ hread]
      rfl
  | @misplaced session token others hnext hminus hnumber =>
      intro sum below top _
      rw [resume_cons _ hnext, step, stepOperand_misplaced hminus hnumber]
      rfl

/-! ## Whole evaluations -/

/-- In front of anything but the closing marker, the machine starts with a sum. -/
theorem evaluate_cons {nestingLimit : Option Nat} {token : Token} {others : List Token}
    (hkind : token.kind ≠ .endOfInput) :
    evaluate nestingLimit (token :: others) =
      resume (.operand none [] none) (Session.opening nestingLimit (token :: others)) := by
  rw [resume_cons _ (Session.upcoming_opening _ _), evaluate, run_cons, step, if_neg hkind, step]
  simp only [resume, Session.upcoming_advance (Session.upcoming_opening _ _)]
  rfl

/-- Under every nesting limit, evaluating a token sequence is running the machine. -/
theorem evaluateTokensWithin_eq (nestingLimit : Option Nat) (tokens : List Token) :
    evaluateTokensWithin nestingLimit tokens = evaluate nestingLimit tokens := by
  cases tokens with
  | nil => exact evaluateTokensWithin_nil nestingLimit
  | cons token others =>
    by_cases hkind : token.kind = .endOfInput
    · rw [evaluateTokensWithin_end hkind, evaluate, run_cons, step, if_pos hkind]
      exact (run_done _ _ _ _).symm
    · rw [evaluate_cons hkind]
      rcases reads_or_fails (.chain .sum) (Session.opening nestingLimit (token :: others)) with
        ⟨value, after, hreads⟩ | ⟨cause, after, hfails⟩
      · rw [(evaluateTokensWithin_eq_ok_iff_reads hkind).mpr ⟨after, hreads⟩]
        exact (follows_of_reads hreads rfl).symm
      · rw [(evaluateTokensWithin_eq_error_iff_fails hkind).mpr ⟨after, hfails⟩]
        exact (failsWith_of_fails hfails rfl).symm

end Machine

/-- Evaluating a token sequence is running the machine on it, with room for 256 open
negations: value for value and failure for failure. -/
theorem evaluateTokens_eq_evaluate (tokens : List Token) :
    evaluateTokens tokens = Machine.evaluate (some 256) tokens :=
  Machine.evaluateTokensWithin_eq (some 256) tokens

end Calculator
