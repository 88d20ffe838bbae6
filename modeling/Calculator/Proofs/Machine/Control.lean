import Calculator.Proofs.Machine

/-!
# The control of the machine

Which tokens the machine can read next depends on what it expects, and how many
negations are open depends on the kinds of the tokens alone.  The control of a state
is that part of it: numbers only decide whether a run goes on, never where it goes.

Main results:

- Theorem `Machine.control_of_step`: the control after a token follows from the
  control in front of it and the kind of the token.
- Theorem `Machine.step_eq_unexpectedToken_iff`: a token is unexpected exactly where
  the control has no place for its kind.
- Theorem `Machine.feed_eq_error_iff`: a run fails at the first token that fails.
- Theorem `Machine.evaluate_eq_unexpectedEnd_iff`: the end is missed exactly when all
  tokens were read and the machine is not done.
-/

namespace Calculator
namespace Machine

/-- What a state expects, and how many negations are open. -/
inductive Control where
  | start
  | operand (depth : Nat)
  | operator (depth : Nat)
  | done
deriving DecidableEq

namespace Control

/-- The control after a token of a kind, where such a token can stand. -/
def after? : Control → Token.Kind → Option Control
  | start, .endOfInput => some done
  | start, .minus => some (operand 1)
  | start, .number => some (operator 0)
  | operand depth, .minus => some (operand (depth + 1))
  | operand depth, .number => some (operator depth)
  | operator depth, .star => some (operand depth)
  | operator depth, .slash => some (operand depth)
  | operator _, .plus => some (operand 0)
  | operator _, .minus => some (operand 0)
  | operator _, .endOfInput => some done
  | done, _ => some done
  | _, _ => none

/-- In front of anything but the closing marker, the front is a place for an operand. -/
theorem after?_start {kind : Token.Kind} (hkind : kind ≠ .endOfInput) :
    start.after? kind = (operand 0).after? kind := by
  cases kind with
  | endOfInput => exact absurd rfl hkind
  | _ => rfl

end Control

/-- The control of a state. -/
def State.control : State → Control
  | start => .start
  | operand _ below _ => .operand below.length
  | operator _ below _ => .operator below.length
  | done _ => .done

/-! ## Steps -/

/-- A step that goes well is followed by one that goes well. -/
theorem bind_eq_ok {α β : Type} {first : Except Failure α} {continuation : α → Except Failure β}
    {result : β} (hok : (first >>= continuation) = .ok result) :
    ∃ value, first = .ok value ∧ continuation value = .ok result := by
  cases first with
  | ok value => exact ⟨value, rfl, hok⟩
  | error cause => cases hok

/-- If two steps in a row fail, the first fails, or the second after it. -/
theorem bind_eq_error {α β : Type} {first : Except Failure α}
    {continuation : α → Except Failure β} {cause : Failure}
    (herror : (first >>= continuation) = .error cause) :
    first = .error cause ∨ ∃ value, first = .ok value ∧ continuation value = .error cause := by
  cases first with
  | ok value => exact .inr ⟨value, rfl, herror⟩
  | error cause' =>
      left
      cases herror
      rfl

section Step

variable {nestingLimit : Option Nat} {state next : State} {position : Nat} {token : Token}

/-- In the place of an operand, the kind of a token decides the control after it. -/
theorem control_of_stepOperand {sum top : Option Pending} {below : List (Option Pending)}
    (hstep : stepOperand nestingLimit sum below top position token = .ok next) :
    (Control.operand below.length).after? token.kind = some next.control := by
  cases hkind : token.kind with
  | minus =>
      simp only [stepOperand, hkind] at hstep
      split at hstep
      · cases hstep
        rfl
      · cases hstep
  | number =>
      rw [stepOperand_number hkind] at hstep
      rcases bind_eq_ok hstep with ⟨value, -, hstep⟩
      rcases bind_eq_ok hstep with ⟨combined, -, hstep⟩
      cases hstep
      rfl
  | plus => simp only [stepOperand, hkind] at hstep; cases hstep
  | star => simp only [stepOperand, hkind] at hstep; cases hstep
  | slash => simp only [stepOperand, hkind] at hstep; cases hstep
  | endOfInput => simp only [stepOperand, hkind] at hstep; cases hstep

/-- Behind an operand, the kind of a token decides the control after it. -/
theorem control_of_stepOperator {sum : Option Pending} {below : List (Option Pending)}
    {value : Int64} (hstep : stepOperator sum below value position token = .ok next) :
    (Control.operator below.length).after? token.kind = some next.control := by
  cases hkind : token.kind <;> simp only [stepOperator, hkind] at hstep
  case star => cases hstep; rfl
  case slash => cases hstep; rfl
  case number => cases hstep
  all_goals
    rcases bind_eq_ok hstep with ⟨total, -, hstep⟩
    cases hstep
    rfl

/-- The control after a token follows from the control in front of it. -/
theorem control_of_step (hstep : step nestingLimit state position token = .ok next) :
    state.control.after? token.kind = some next.control := by
  cases state with
  | start =>
      rw [step] at hstep
      split at hstep
      next hkind =>
        cases hstep
        rw [hkind]
        rfl
      next hkind =>
        show Control.start.after? token.kind = _
        rw [Control.after?_start hkind]
        exact control_of_stepOperand hstep
  | operand sum below top => exact control_of_stepOperand hstep
  | operator sum below value => exact control_of_stepOperator hstep
  | done value =>
      cases hstep
      rfl

/-! ## Failing steps -/

/-- An operation fails for arithmetic reasons only. -/
theorem combine_eq_error {left : Option Pending} {rhs : Int64} {cause : Failure}
    (herror : combine left rhs = .error cause) : ∃ error, cause = .arithmetic error := by
  cases left with
  | none => cases herror
  | some pending =>
    cases happly : pending.op.apply pending.lhs rhs with
    | ok value => simp only [combine, happly] at herror; cases herror
    | error error => simp only [combine, happly] at herror; cases herror; exact ⟨error, rfl⟩

theorem close_eq_error {below : List (Option Pending)} {value : Int64} {cause : Failure}
    (herror : close below value = .error cause) : ∃ error, cause = .arithmetic error := by
  induction below generalizing value with
  | nil => cases herror
  | cons frame below ih =>
    rcases bind_eq_error herror with hnegate | ⟨negated, -, herror⟩
    · cases hnegated : negate value with
      | ok value => rw [hnegated] at hnegate; cases hnegate
      | error error => rw [hnegated] at hnegate; cases hnegate; exact ⟨error, rfl⟩
    · rcases bind_eq_error herror with hcombine | ⟨combined, -, herror⟩
      · exact combine_eq_error hcombine
      · exact ih herror

theorem settle_eq_error {sum : Option Pending} {below : List (Option Pending)} {value : Int64}
    {cause : Failure} (herror : settle sum below value = .error cause) :
    ∃ error, cause = .arithmetic error := by
  rcases bind_eq_error herror with hclose | ⟨product, -, hcombine⟩
  · exact close_eq_error hclose
  · exact combine_eq_error hcombine

/-- A number fails as too large or as malformed, from the fault of its text. -/
theorem literal_eq_error {text : String} {cause : Failure}
    (herror : literal text position = .error cause) :
    (Numeral.read text = .error .tooLarge ∧
        cause = .grammatical (.literalTooLarge text position)) ∨
      ∃ fault, Numeral.read text = .error fault ∧ fault ≠ .tooLarge ∧
        cause = .grammatical (.malformedLiteral text position) := by
  unfold literal at herror
  split at herror
  next => cases herror
  next hread =>
    cases herror
    exact .inl ⟨hread, rfl⟩
  next fault hfault hread =>
    cases herror
    exact .inr ⟨fault, hread, hfault, rfl⟩

/-- The ways in which a token can fail that stands where its kind can stand. -/
inductive Setback (token : Token) (position : Nat) : Failure → Prop where
  | nesting (hkind : token.kind = .minus) :
      Setback token position (.grammatical (.nestingTooDeep position))
  | tooLarge (hkind : token.kind = .number)
      (hread : Numeral.read token.text = .error .tooLarge) :
      Setback token position (.grammatical (.literalTooLarge token.text position))
  | malformed {fault : Numeral.Fault} (hkind : token.kind = .number)
      (hread : Numeral.read token.text = .error fault) (hfault : fault ≠ .tooLarge) :
      Setback token position (.grammatical (.malformedLiteral token.text position))
  | arithmetic (error : ArithmeticError) : Setback token position (.arithmetic error)

/-- The ways in which a token can fail, from the control after it. -/
def Mishap (token : Token) (position : Nat) (cause : Failure) : Option Control → Prop
  | none => cause = .grammatical (.unexpectedToken token.text position)
  | some _ => Setback token position cause

/-- In the place of an operand, a token fails for one of these reasons. -/
theorem mishap_of_stepOperand {sum top : Option Pending} {below : List (Option Pending)}
    {cause : Failure}
    (hstep : stepOperand nestingLimit sum below top position token = .error cause) :
    Mishap token position cause ((Control.operand below.length).after? token.kind) := by
  cases hkind : token.kind with
  | minus =>
      simp only [stepOperand, hkind] at hstep
      split at hstep <;> cases hstep
      exact .nesting hkind
  | number =>
      rw [stepOperand_number hkind] at hstep
      rcases bind_eq_error hstep with hliteral | ⟨value, -, hstep⟩
      · rcases literal_eq_error hliteral with ⟨hread, rfl⟩ | ⟨fault, hread, hfault, rfl⟩
        · exact .tooLarge hkind hread
        · exact .malformed hkind hread hfault
      · rcases bind_eq_error hstep with hcombine | ⟨combined, -, hstep⟩
        · rcases combine_eq_error hcombine with ⟨error, rfl⟩
          exact .arithmetic error
        · cases hstep
  | plus => simp only [stepOperand, hkind] at hstep; cases hstep; rfl
  | star => simp only [stepOperand, hkind] at hstep; cases hstep; rfl
  | slash => simp only [stepOperand, hkind] at hstep; cases hstep; rfl
  | endOfInput => simp only [stepOperand, hkind] at hstep; cases hstep; rfl

/-- Behind an operand, a token fails for one of these reasons. -/
theorem mishap_of_stepOperator {sum : Option Pending} {below : List (Option Pending)}
    {value : Int64} {cause : Failure}
    (hstep : stepOperator sum below value position token = .error cause) :
    Mishap token position cause ((Control.operator below.length).after? token.kind) := by
  cases hkind : token.kind <;> simp only [stepOperator, hkind] at hstep
  case number => cases hstep; rfl
  case star => cases hstep
  case slash => cases hstep
  all_goals
    rcases bind_eq_error hstep with hsettle | ⟨total, -, hstep⟩
    · rcases settle_eq_error hsettle with ⟨error, rfl⟩
      exact .arithmetic error
    · cases hstep

/-- A step fails because its token is out of place, or at a token that is not. -/
theorem mishap_of_step {cause : Failure}
    (hstep : step nestingLimit state position token = .error cause) :
    Mishap token position cause (state.control.after? token.kind) := by
  cases state with
  | start =>
      rw [step] at hstep
      split at hstep
      next => cases hstep
      next hend =>
        show Mishap token position cause (Control.start.after? token.kind)
        rw [Control.after?_start hend]
        exact mishap_of_stepOperand hstep
  | operand sum below top => exact mishap_of_stepOperand hstep
  | operator sum below value => exact mishap_of_stepOperator hstep
  | done value => cases hstep

/-- A token is unexpected exactly where the control has no place for its kind. -/
theorem step_eq_unexpectedToken_iff {text : String} {place : Nat} :
    step nestingLimit state position token =
        .error (.grammatical (.unexpectedToken text place)) ↔
      state.control.after? token.kind = none ∧ text = token.text ∧ place = position := by
  constructor
  · intro hstep
    have hmishap := mishap_of_step hstep
    cases hafter : state.control.after? token.kind with
    | none =>
        rw [hafter] at hmishap
        cases hmishap
        exact ⟨rfl, rfl, rfl⟩
    | some next =>
        rw [hafter] at hmishap
        cases hmishap
  · intro h
    rcases h with ⟨hnone, htext, hplace⟩
    cases hstep : step nestingLimit state position token with
    | ok next =>
        rw [control_of_step hstep] at hnone
        cases hnone
    | error cause =>
        have hmishap := mishap_of_step hstep
        rw [hnone] at hmishap
        rw [htext, hplace]
        exact congrArg Except.error hmishap

/-- No step misses the end. -/
theorem step_ne_unexpectedEnd {place : Nat} :
    step nestingLimit state position token ≠
      .error (.grammatical (.unexpectedEnd place)) := by
  intro hstep
  have hmishap := mishap_of_step hstep
  cases hafter : state.control.after? token.kind <;> rw [hafter] at hmishap <;> cases hmishap

end Step

/-! ## Runs -/

section Runs

variable {nestingLimit : Option Nat} {state : State} {position : Nat} {tokens : List Token}

/-- A run fails at the first token that fails. -/
theorem feed_eq_error_iff {cause : Failure} :
    feed nestingLimit state position tokens = .error cause ↔
      ∃ i token middle, tokens[i]? = some token ∧
        feed nestingLimit state position (tokens.take i) = .ok middle ∧
        step nestingLimit middle (position + i + 1) token = .error cause := by
  induction tokens generalizing state position with
  | nil =>
      constructor
      · intro hfeed
        cases hfeed
      · intro h
        rcases h with ⟨i, token, middle, htoken, -, -⟩
        simp at htoken
  | cons token others ih =>
      constructor
      · intro hfeed
        rw [feed_cons] at hfeed
        rcases bind_eq_error hfeed with hstep | ⟨next, hstep, hfeed⟩
        · exact ⟨0, token, state, rfl, rfl, hstep⟩
        · rcases ih.mp hfeed with ⟨i, token', middle, htoken, hmiddle, herror⟩
          refine ⟨i + 1, token', middle, htoken, ?_, ?_⟩
          · rw [List.take_succ_cons, feed_cons, hstep]
            exact hmiddle
          · rw [← herror]
            congr 1
            omega
      · intro h
        rcases h with ⟨i, token', middle, htoken, hmiddle, herror⟩
        rw [feed_cons]
        cases i with
        | zero =>
            cases htoken
            cases hmiddle
            rw [show position + 0 + 1 = position + 1 by rfl] at herror
            rw [herror]
            rfl
        | succ i =>
            rw [List.take_succ_cons, feed_cons] at hmiddle
            rcases bind_eq_ok hmiddle with ⟨next, hstep, hmiddle⟩
            rw [hstep]
            refine ih.mpr ⟨i, token', middle, htoken, hmiddle, ?_⟩
            rw [← herror]
            congr 1
            omega

/-- The end is missed exactly when all tokens were read and the machine is not done. -/
theorem evaluate_eq_unexpectedEnd_iff :
    evaluate nestingLimit tokens = .error (.grammatical (.unexpectedEnd position)) ↔
      position = tokens.length ∧
        ∃ last, feed nestingLimit .start 0 tokens = .ok last ∧ last.control ≠ .done := by
  constructor
  · intro hend
    rcases bind_eq_error hend with hfeed | ⟨last, hfeed, hanswer⟩
    · rcases feed_eq_error_iff.mp hfeed with ⟨i, token, middle, -, -, hstep⟩
      exact absurd hstep step_ne_unexpectedEnd
    · cases last <;> cases hanswer <;> exact ⟨by omega, _, hfeed, by simp [State.control]⟩
  · intro h
    rcases h with ⟨rfl, last, hfeed, hdone⟩
    rw [evaluate_of_feed hfeed]
    cases last with
    | done value => exact absurd rfl hdone
    | start => rfl
    | operand sum below top => rfl
    | operator sum below value => rfl

/-- The machine never fails for a lexical cause. -/
theorem evaluate_ne_lexical {error : LexicalError} :
    evaluate nestingLimit tokens ≠ .error (.lexical error) := by
  intro hlexical
  rcases bind_eq_error hlexical with hfeed | ⟨last, -, hanswer⟩
  · rcases feed_eq_error_iff.mp hfeed with ⟨i, token, middle, -, -, hstep⟩
    have hmishap := mishap_of_step hstep
    cases hafter : middle.control.after? token.kind <;> rw [hafter] at hmishap <;> cases hmishap
  · cases last <;> cases hanswer

end Runs

end Machine
end Calculator
