import Calculator.Evaluation

/-!
# The one-pass machine

The same language can be evaluated in one pass over the tokens, without recursion.
The machine keeps the sum so far and a stack of frames, one for each open negation
and one at the bottom.  A number goes at once into the top frame.  A sign or the
closing marker after an operand closes all open negations, from the innermost
outward, and what is left in the bottom frame goes into the sum.

Main results:

- Theorems `Machine.feed_append` and `Machine.run_append`: tokens can be read in two
  portions.
- Theorem `Machine.stepOperator_close`: a token that ends a product closes one open
  negation at a time.
-/

namespace Calculator
namespace Machine

/-- A left operand and the operation that waits for the right one. -/
structure Pending where
  lhs : Int64
  op : Operator

/-- What the machine remembers between two tokens: the pending sum, and the frames
with the innermost first. -/
inductive State where
  /-- No token was read yet. -/
  | start
  /-- An operand of the top frame comes next. -/
  | operand (sum : Option Pending) (below : List (Option Pending)) (top : Option Pending)
  /-- An operand was read, and the top frame holds a value. -/
  | operator (sum : Option Pending) (below : List (Option Pending)) (value : Int64)
  /-- The closing marker was read, or nothing but the marker. -/
  | done (value : Int64)

/-! ## Arithmetic of the frames -/

/-- Combine a value with the operand that waits for it, if one does. -/
def combine (left : Option Pending) (rhs : Int64) : Except Failure Int64 :=
  match left with
  | none => .ok rhs
  | some pending => (pending.op.apply pending.lhs rhs).mapError .arithmetic

/-- Close the negations around a value, from the innermost outward. -/
def close : List (Option Pending) → Int64 → Except Failure Int64
  | [], value => .ok value
  | frame :: below, value => do
      let negated ← (negate value).mapError .arithmetic
      let combined ← combine frame negated
      close below combined

/-- Close all negations around a value and add it to the pending sum. -/
def settle (sum : Option Pending) (below : List (Option Pending)) (value : Int64) :
    Except Failure Int64 := do
  let product ← close below value
  combine sum product

/-- The value of a number's text. -/
def literal (text : String) (position : Nat) : Except Failure Int64 :=
  match Numeral.read text with
  | .ok value => .ok value
  | .error .tooLarge => .error (.grammatical (.literalTooLarge text position))
  | .error _ => .error (.grammatical (.malformedLiteral text position))

/-! ## Steps -/

/-- Read a token where an operand is expected.  The position counts the tokens read,
this one included. -/
def stepOperand (nestingLimit : Option Nat) (sum : Option Pending)
    (below : List (Option Pending)) (top : Option Pending) (position : Nat) (token : Token) :
    Except Failure State :=
  match token.kind with
  | .minus =>
      if nestingLimit.all (below.length < ·) then .ok (.operand sum (top :: below) none)
      else .error (.grammatical (.nestingTooDeep position))
  | .number => do
      let value ← literal token.text position
      let combined ← combine top value
      pure (.operator sum below combined)
  | .plus | .star | .slash | .endOfInput =>
      .error (.grammatical (.unexpectedToken token.text position))

/-- Read a token after an operand. -/
def stepOperator (sum : Option Pending) (below : List (Option Pending)) (value : Int64)
    (position : Nat) (token : Token) : Except Failure State :=
  match token.kind with
  | .star => .ok (.operand sum below (some ⟨value, .mul⟩))
  | .slash => .ok (.operand sum below (some ⟨value, .div⟩))
  | .plus => do
      let total ← settle sum below value
      pure (.operand (some ⟨total, .add⟩) [] none)
  | .minus => do
      let total ← settle sum below value
      pure (.operand (some ⟨total, .sub⟩) [] none)
  | .endOfInput => do
      let total ← settle sum below value
      pure (.done total)
  | .number => .error (.grammatical (.unexpectedToken token.text position))

/-- Read a token.  The closing marker in front of everything stands for zero, and
what follows the end is not read. -/
def step (nestingLimit : Option Nat) :
    State → Nat → Token → Except Failure State
  | .start, position, token =>
      if token.kind = .endOfInput then .ok (.done 0)
      else stepOperand nestingLimit none [] none position token
  | .operand sum below top, position, token =>
      stepOperand nestingLimit sum below top position token
  | .operator sum below value, position, token =>
      stepOperator sum below value position token
  | .done value, _, _ => .ok (.done value)

/-! ## Runs -/

/-- Read tokens one after the other, with a number of tokens in front of them. -/
def feed (nestingLimit : Option Nat) (state : State) (position : Nat) :
    List Token → Except Failure State
  | [] => .ok state
  | token :: others => do
      let next ← step nestingLimit state (position + 1) token
      feed nestingLimit next (position + 1) others

/-- What the machine answers when the tokens are used up. -/
def State.answer (position : Nat) : State → Except Failure Int64
  | done value => .ok value
  | _ => .error (.grammatical (.unexpectedEnd position))

/-- Read tokens to their end, with a number of tokens in front of them. -/
def run (nestingLimit : Option Nat) (state : State) (position : Nat) (tokens : List Token) :
    Except Failure Int64 := do
  let last ← feed nestingLimit state position tokens
  last.answer (position + tokens.length)

/-- Evaluate a token sequence in one pass. -/
def evaluate (nestingLimit : Option Nat) (tokens : List Token) : Except Failure Int64 :=
  run nestingLimit .start 0 tokens

section Runs

variable (nestingLimit : Option Nat) (state : State) (position : Nat)

@[simp]
theorem feed_nil : feed nestingLimit state position [] = .ok state :=
  rfl

/-- The first token is fed in one step, and the others from the state after it. -/
theorem feed_cons (token : Token) (others : List Token) :
    feed nestingLimit state position (token :: others) =
      (step nestingLimit state (position + 1) token >>= fun next =>
        feed nestingLimit next (position + 1) others) :=
  rfl

/-- Feeding tokens in two portions is feeding them at once. -/
theorem feed_append (first second : List Token) :
    feed nestingLimit state position (first ++ second) =
      (feed nestingLimit state position first >>= fun next =>
        feed nestingLimit next (position + first.length) second) := by
  induction first generalizing state position with
  | nil => rfl
  | cons token others ih =>
      simp only [List.cons_append, feed_cons, bind_assoc, List.length_cons]
      apply bind_congr
      intro next
      rw [ih, Nat.add_assoc, Nat.add_comm 1]

@[simp]
theorem feed_done (value : Int64) (tokens : List Token) :
    feed nestingLimit (.done value) position tokens = .ok (.done value) := by
  induction tokens generalizing position with
  | nil => rfl
  | cons token others ih => exact ih (position + 1)

theorem run_nil : run nestingLimit state position [] = state.answer position :=
  rfl

/-- A run takes one step for the first token and goes on from the state after it. -/
theorem run_cons (token : Token) (others : List Token) :
    run nestingLimit state position (token :: others) =
      (step nestingLimit state (position + 1) token >>= fun next =>
        run nestingLimit next (position + 1) others) := by
  simp only [run, feed_cons, bind_assoc, List.length_cons]
  apply bind_congr
  intro next
  apply bind_congr
  intro last
  rw [Nat.add_assoc, Nat.add_comm 1]

/-- Reading tokens in two portions is reading them at once. -/
theorem run_append (first second : List Token) :
    run nestingLimit state position (first ++ second) =
      (feed nestingLimit state position first >>= fun next =>
        run nestingLimit next (position + first.length) second) := by
  simp only [run, feed_append, bind_assoc, List.length_append, Nat.add_assoc]

@[simp]
theorem run_done (value : Int64) (tokens : List Token) :
    run nestingLimit (.done value) position tokens = .ok value := by
  rw [run, feed_done]
  rfl

end Runs

section Front

variable {nestingLimit : Option Nat} {tokens front others : List Token}

/-- The answer to some tokens is that of the state that they lead to. -/
theorem evaluate_of_feed {last : State} (hfeed : feed nestingLimit .start 0 tokens = .ok last) :
    evaluate nestingLimit tokens = last.answer tokens.length := by
  rw [evaluate, run, hfeed, Nat.zero_add]
  rfl

/-- An evaluation fails where reading its tokens fails. -/
theorem evaluate_of_feed_error {cause : Failure}
    (hfeed : feed nestingLimit .start 0 tokens = .error cause) :
    evaluate nestingLimit tokens = .error cause := by
  rw [evaluate, run, hfeed]
  rfl

/-- What comes behind some tokens is read from the state that they lead to. -/
theorem evaluate_append_of_feed {last : State}
    (hfeed : feed nestingLimit .start 0 front = .ok last) :
    evaluate nestingLimit (front ++ others) = run nestingLimit last front.length others := by
  rw [evaluate, run_append, hfeed, Nat.zero_add]
  rfl

/-- What comes behind tokens that fail is not read. -/
theorem evaluate_append_of_feed_error {cause : Failure}
    (hfeed : feed nestingLimit .start 0 front = .error cause) :
    evaluate nestingLimit (front ++ others) = .error cause := by
  apply evaluate_of_feed_error
  rw [feed_append, hfeed]
  rfl

end Front

/-- A token that ends a product closes the innermost negation first. -/
theorem stepOperator_close {sum frame : Option Pending} {below : List (Option Pending)}
    {value : Int64} {position : Nat} {token : Token}
    (hstop : Level.product.follow token.kind = .stop) :
    stepOperator sum (frame :: below) value position token = (do
      let negated ← (negate value).mapError .arithmetic
      let combined ← combine frame negated
      stepOperator sum below combined position token) := by
  cases hkind : token.kind with
  | star => rw [hkind] at hstop; cases hstop
  | slash => rw [hkind] at hstop; cases hstop
  | number => rw [hkind] at hstop; cases hstop
  | plus => simp only [stepOperator, hkind, settle, close, bind_assoc]
  | minus => simp only [stepOperator, hkind, settle, close, bind_assoc]
  | endOfInput => simp only [stepOperator, hkind, settle, close, bind_assoc]

/-- A token that ends a product adds the product to the pending sum first. -/
theorem stepOperator_settle {sum : Option Pending} {value : Int64} {position : Nat}
    {token : Token} (hstop : Level.product.follow token.kind = .stop) :
    stepOperator sum [] value position token =
      (combine sum value >>= fun total => stepOperator none [] total position token) := by
  cases hkind : token.kind with
  | star => rw [hkind] at hstop; cases hstop
  | slash => rw [hkind] at hstop; cases hstop
  | number => rw [hkind] at hstop; cases hstop
  | plus => simp only [stepOperator, hkind, settle, close]; rfl
  | minus => simp only [stepOperator, hkind, settle, close]; rfl
  | endOfInput => simp only [stepOperator, hkind, settle, close]; rfl

/-- An operator of products waits in the top frame. -/
theorem stepOperator_product {sum : Option Pending} {below : List (Option Pending)}
    {value : Int64} {position : Nat} {token : Token} {op : Operator}
    (hfollow : Level.product.follow token.kind = .operator op) :
    stepOperator sum below value position token = .ok (.operand sum below (some ⟨value, op⟩)) := by
  cases hkind : token.kind <;> rw [hkind] at hfollow <;> cases hfollow <;>
    simp only [stepOperator, hkind]

/-- A sign after an operand waits with the sum so far. -/
theorem stepOperator_sum {value : Int64} {position : Nat} {token : Token} {op : Operator}
    (hfollow : Level.sum.follow token.kind = .operator op) :
    stepOperator none [] value position token =
      .ok (.operand (some ⟨value, op⟩) [] none) := by
  cases hkind : token.kind <;> rw [hkind] at hfollow <;> cases hfollow <;>
    simp only [stepOperator, hkind] <;> rfl

/-- Behind the value of the whole sum, the closing marker ends the run. -/
theorem stepOperator_end {value : Int64} {position : Nat} {token : Token}
    (hfollow : Level.sum.follow token.kind = .stop) :
    stepOperator none [] value position token = .ok (.done value) := by
  cases hkind : token.kind <;> rw [hkind] at hfollow <;> cases hfollow
  simp only [stepOperator, hkind]
  rfl

/-- The closing marker settles what is in front of it. -/
theorem run_operator_end {nestingLimit : Option Nat} {sum : Option Pending}
    {below : List (Option Pending)} {position : Nat} (value : Int64) :
    run nestingLimit (.operator sum below value) position [Token.endOfInput] =
      settle sum below value := by
  rw [run_cons]
  simp only [step, stepOperator, Token.endOfInput, run_nil]
  cases settle sum below value <;> rfl

/-- Behind an operand, a token that no chain can go on with is refused. -/
theorem stepOperator_refuse {sum : Option Pending} {below : List (Option Pending)}
    {value : Int64} {position : Nat} {token : Token}
    (hfollow : Level.product.follow token.kind = .refuse) :
    stepOperator sum below value position token =
      .error (.grammatical (.unexpectedToken token.text position)) := by
  cases hkind : token.kind <;> rw [hkind] at hfollow <;> cases hfollow
  simp only [stepOperator, hkind]

section Operand

variable {nestingLimit : Option Nat} {sum top : Option Pending}
  {below : List (Option Pending)} {position : Nat} {token : Token}

/-- In front of an operand, a minus opens a negation if there is room for one more. -/
theorem stepOperand_minus (hkind : token.kind = .minus)
    (hroom : nestingLimit.all (below.length < ·) = true) :
    stepOperand nestingLimit sum below top position token =
      .ok (.operand sum (top :: below) none) := by
  simp only [stepOperand, hkind]
  rw [if_pos hroom]

/-- A minus for which there is no room is nested too deep. -/
theorem stepOperand_tooDeep (hkind : token.kind = .minus)
    (hfull : ¬ nestingLimit.all (below.length < ·) = true) :
    stepOperand nestingLimit sum below top position token =
      .error (.grammatical (.nestingTooDeep position)) := by
  simp only [stepOperand, hkind]
  rw [if_neg hfull]

/-- A number is read, and the operation that waits for it within its product is carried out. -/
theorem stepOperand_number (hkind : token.kind = .number) :
    stepOperand nestingLimit sum below top position token =
      (literal token.text position >>= fun value => combine top value >>= fun combined =>
        .ok (.operator sum below combined)) := by
  simp only [stepOperand, hkind]
  rfl

/-- Any other token is refused in the place of an operand. -/
theorem stepOperand_misplaced (hminus : token.kind ≠ .minus) (hnumber : token.kind ≠ .number) :
    stepOperand nestingLimit sum below top position token =
      .error (.grammatical (.unexpectedToken token.text position)) := by
  cases hkind : token.kind with
  | minus => exact absurd hkind hminus
  | number => exact absurd hkind hnumber
  | plus => simp only [stepOperand, hkind]
  | star => simp only [stepOperand, hkind]
  | slash => simp only [stepOperand, hkind]
  | endOfInput => simp only [stepOperand, hkind]

end Operand

end Machine
end Calculator
