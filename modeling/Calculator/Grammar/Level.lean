import Calculator.Arithmetic
import Calculator.Event

/-!
# Levels of the grammar

There are two levels of binary operations, sums of products and products of
operands.  Both are chains: an operand, then operators with one more operand each.
What a token after an operand means depends on the level: it may go on with the
chain, end it, or be out of place.

A product ends in front of an operator of the outer level or the closing marker, and
a sum in front of the closing marker only.
-/

namespace Calculator

/-- The levels of binary operations, from the loosest to the tightest. -/
inductive Level where
  | sum
  | product
deriving DecidableEq

/-- What a token after an operand means for the chain it stands in. -/
inductive Follow where
  /-- One more operand follows, to be combined by an operation. -/
  | operator (op : Operator)
  /-- The chain is complete in front of the token. -/
  | stop
  /-- The token cannot stand here. -/
  | refuse
deriving DecidableEq

namespace Level

/-- The rule of a level. -/
def rule : Level → Rule
  | sum => .sum
  | product => .product

/-- The number of levels from one inward, itself included. -/
def rank : Level → Nat
  | sum => 2
  | product => 1

/-- What a token of a given kind means after an operand of a level. -/
def follow : Level → Token.Kind → Follow
  | sum, .plus => .operator .add
  | sum, .minus => .operator .sub
  | sum, .endOfInput => .stop
  | sum, _ => .refuse
  | product, .star => .operator .mul
  | product, .slash => .operator .div
  | product, .number => .refuse
  | product, _ => .stop

end Level

end Calculator
