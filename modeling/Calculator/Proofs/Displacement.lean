import Calculator.Proofs.Machine.Control

/-!
# Failures behind other tokens

The position of a grammatical error counts tokens, so it is larger where more tokens stand
in front.  Nothing else in a failure depends on them.  On the machine this is so for single
steps, and hence for runs.

Main results:

- Theorem `Machine.run_behind`: with more tokens in front, a run of the machine fails with
  larger positions and is the same otherwise.
-/

namespace Calculator

/-- The error with a number of further tokens in front. -/
def GrammarError.behind (count : Nat) : GrammarError → GrammarError
  | unexpectedToken text position => unexpectedToken text (position + count)
  | unexpectedEnd position => unexpectedEnd (position + count)
  | literalTooLarge text position => literalTooLarge text (position + count)
  | nestingTooDeep position => nestingTooDeep (position + count)
  | malformedLiteral text position => malformedLiteral text (position + count)

/-- The failure with a number of further tokens in front. -/
def Failure.behind (count : Nat) : Failure → Failure
  | lexical error => lexical error
  | grammatical error => grammatical (error.behind count)
  | arithmetic error => arithmetic error

namespace Machine

variable {nestingLimit : Option Nat} {count position : Nat} {token : Token}

/-- A change of the failures of two steps in a row is one of the failures of each. -/
theorem mapError_bind {α β : Type} (first : Except Failure α)
    (continuation : α → Except Failure β) (f : Failure → Failure) :
    (first >>= continuation).mapError f =
      (first.mapError f >>= fun value => (continuation value).mapError f) := by
  cases first <;> rfl

/-- Results that only fail in arithmetic do not depend on positions. -/
theorem mapError_behind_of_arithmetic {result : Except Failure Int64}
    (harithmetic : ∀ cause, result = .error cause → ∃ error, cause = .arithmetic error) :
    result.mapError (Failure.behind count) = result := by
  cases result with
  | ok value => rfl
  | error cause =>
    rcases harithmetic cause rfl with ⟨error, rfl⟩
    rfl

/-- An operation fails without naming a position, so there is nothing to displace. -/
theorem combine_behind (left : Option Pending) (rhs : Int64) :
    (combine left rhs).mapError (Failure.behind count) = combine left rhs :=
  mapError_behind_of_arithmetic fun _ => combine_eq_error

/-- The same holds of all that is settled behind a product. -/
theorem settle_behind (sum : Option Pending) (below : List (Option Pending)) (value : Int64) :
    (settle sum below value).mapError (Failure.behind count) = settle sum below value :=
  mapError_behind_of_arithmetic fun _ => settle_eq_error

/-- Behind more tokens, a literal is refused at a position greater by their number. -/
theorem literal_behind (text : String) :
    literal text (position + count) = (literal text position).mapError (Failure.behind count) := by
  unfold literal
  cases Numeral.read text with
  | ok value => rfl
  | error fault => cases fault <;> rfl

/-! ## Steps -/

/-- A step in front of an operand is displaced with its token. -/
theorem stepOperand_behind (sum : Option Pending) (below : List (Option Pending))
    (top : Option Pending) :
    stepOperand nestingLimit sum below top (position + count) token =
      (stepOperand nestingLimit sum below top position token).mapError
        (Failure.behind count) := by
  cases hkind : token.kind with
  | minus =>
      by_cases hroom : nestingLimit.all (below.length < ·) = true
      · rw [stepOperand_minus hkind hroom, stepOperand_minus hkind hroom]
        rfl
      · rw [stepOperand_tooDeep hkind hroom, stepOperand_tooDeep hkind hroom]
        rfl
  | number =>
      rw [stepOperand_number hkind, stepOperand_number hkind, literal_behind, mapError_bind]
      apply bind_congr
      intro value
      rw [mapError_bind, combine_behind]
      rfl
  | plus => simp only [stepOperand, hkind]; rfl
  | star => simp only [stepOperand, hkind]; rfl
  | slash => simp only [stepOperand, hkind]; rfl
  | endOfInput => simp only [stepOperand, hkind]; rfl

/-- A step behind an operand is displaced with its token. -/
theorem stepOperator_behind (sum : Option Pending) (below : List (Option Pending))
    (value : Int64) :
    stepOperator sum below value (position + count) token =
      (stepOperator sum below value position token).mapError (Failure.behind count) := by
  cases hkind : token.kind <;> simp only [stepOperator, hkind]
  case star => rfl
  case slash => rfl
  case number => rfl
  all_goals
    rw [mapError_bind, settle_behind]
    rfl

/-- With more tokens in front, a step fails with a larger position and is the same
otherwise. -/
theorem step_behind (state : State) :
    step nestingLimit state (position + count) token =
      (step nestingLimit state position token).mapError (Failure.behind count) := by
  cases state with
  | start =>
      rw [step, step]
      split
      · rfl
      · exact stepOperand_behind none [] none
  | operand sum below top => exact stepOperand_behind sum below top
  | operator sum below value => exact stepOperator_behind sum below value
  | done value => rfl

/-! ## Runs -/

/-- With more tokens in front, a run fails with larger positions and is the same
otherwise. -/
theorem run_behind (state : State) (tokens : List Token) :
    run nestingLimit state (position + count) tokens =
      (run nestingLimit state position tokens).mapError (Failure.behind count) := by
  induction tokens generalizing state position with
  | nil => cases state <;> rfl
  | cons token others ih =>
      rw [run_cons, run_cons, Nat.add_right_comm, step_behind, mapError_bind]
      apply bind_congr
      intro next
      exact ih next

end Machine

end Calculator
