import Calculator.Grammar.Outcome

/-!
# The grammar, evaluated as it is read

There are two levels of operations, sums of products and products of operands.
Both are chains: an operand, then operators with one more operand each, combined
from the left as soon as the operand is read.  An operand of a product is a number
or a negation, and a negation covers a whole product:

    expression := (nothing) | sum
    sum        := product (('+' | '-') product)*
    product    := unary (('*' | '/') unary)*
    unary      := '-' product | number

A chain ends in front of a token of an outer level, which it reads and pushes back.
The negations open at once are counted, and the count is lowered again only when
the negated product has been read.

Main results:

- Theorems `Parser.chain_eq`, `Parser.chainFrom_eq` and `Parser.unary_eq` give each
  rule by the steps that it takes, without the bounds under which it was defined.
-/

namespace Calculator

/-! ## The rules as parsers -/

namespace Parser

/-- Read a chain of a level. -/
def chain (level : Level) : Parser Int64 := fun session =>
  (Outcome.chain level session).val

/-- Read an operand of a level. -/
def operand : Level → Parser Int64
  | .sum => chain .product
  | .product => fun session => (Outcome.unary session).val

/-- Read what follows an operand of a chain, whose value so far is given. -/
def chainFrom (level : Level) (value : Int64) : Parser Int64 := fun session =>
  (Outcome.chainFrom level value session).val

/-- Read a sum. -/
def sum : Parser Int64 :=
  chain .sum

/-- Read a product. -/
def product : Parser Int64 :=
  chain .product

/-- Read an operand of a product. -/
def unary : Parser Int64 :=
  operand .product

/-- Read a whole expression.  Nothing at all, in front of the closing marker, has
the value zero; a sum is read otherwise, and leaves the marker unread. -/
def expression : Parser Int64 := do
  enter .expression
  let token ← next
  if token.kind = .endOfInput then
    pure 0
  else
    unread
    sum

/-- Read by a given rule. -/
def ofRule : Rule → Parser Int64
  | .expression => expression
  | .sum => sum
  | .product => product
  | .unary => unary

/-! ## The rules by their steps -/

/-- Going on from the outcome of a step is going on from the step. -/
theorem andThen_val {α β : Type} {bound wider : Nat} {outcome : Outcome α bound}
    {rest : (answer : α) → (after : Session) → after.remaining < bound → Outcome β wider}
    {step : Parser α} {continuation : α → Parser β} {session : Session}
    (hfirst : outcome.val = step session)
    (hfollowing : ∀ answer after hlt, (rest answer after hlt).val = continuation answer after) :
    (outcome.andThen rest).val = (step >>= continuation) session := by
  show _ = EStateM.bind step continuation session
  unfold EStateM.bind
  rw [← hfirst]
  rcases outcome with ⟨_ | _, hbelow⟩
  · exact hfollowing _ _ _
  · rfl

/-- The outcome of an operand is that of its rule. -/
theorem operand_val (level : Level) (session : Session) :
    (Outcome.operand level session).val = operand level session := by
  cases level <;> rw [Outcome.operand] <;> rfl

/-- A chain is its first operand and all that follows it. -/
theorem chain_eq (level : Level) :
    chain level = (do
      enter level.rule
      let value ← operand level
      chainFrom level value) := by
  funext session
  show _ = (operand level >>= fun value => chainFrom level value) (session.enter level.rule)
  rw [chain, Outcome.chain]
  exact andThen_val (operand_val level _) fun _ _ _ => rfl

/-- What follows an operand starts with a token that goes on with the chain, stops
it or is out of place. -/
theorem chainFrom_eq (level : Level) (value : Int64) :
    chainFrom level value = (do
      let token ← next
      match level.follow token.kind with
      | .operator op =>
          let rhs ← operand level
          let result ← calculate (op.apply value rhs)
          chainFrom level result
      | .stop =>
          unread
          pure value
      | .refuse => reject (.unexpectedToken token.text)) := by
  funext session
  rw [chainFrom, Outcome.chainFrom]
  refine andThen_val rfl fun token after hlt => ?_
  cases level.follow token.kind with
  | operator op =>
      exact andThen_val (operand_val level _) fun _ _ _ => andThen_val rfl fun _ _ _ => rfl
  | stop => exact andThen_val rfl fun _ _ _ => rfl
  | refuse => rfl

/-- An operand of a product is a negated product or a number. -/
theorem unary_eq :
    unary = (do
      enter .unary
      let token ← next
      match token.kind with
      | .minus =>
          descend
          let value ← product
          ascend
          calculate (negate value)
      | .number => literal token.text
      | _ => reject (.unexpectedToken token.text)) := by
  funext session
  show (Outcome.unary session).val = (next >>= _) (session.enter .unary)
  rw [Outcome.unary]
  refine andThen_val rfl fun token after hlt => ?_
  cases token.kind with
  | minus =>
      exact andThen_val rfl fun _ _ _ => andThen_val rfl fun _ _ _ => andThen_val rfl fun _ _ _ =>
        rfl
  | _ => rfl

end Parser

end Calculator
