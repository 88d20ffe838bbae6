/-!
# Checked integer arithmetic

The values of the calculator are the signed integers of 64 bits.  An operation
is carried out exactly, on unbounded integers, and its result is narrowed
afterwards: it either fits the 64 bits or the operation fails with the operands
that were asked for.  Nothing ever wraps around.

Main results:

- Theorem `narrow?_eq_some_iff`: narrowing finds the value that denotes an
  integer, and finds one exactly for the integers in range.
- Theorem `Operator.apply_eq_ok_iff`: an operation succeeds with exactly
  the value that denotes its exact result, and never divides by zero.
- Theorem `negate_eq_sub`: negating is subtracting from zero, failures
  included.
-/

namespace Calculator

/-! ## The range of values -/

/-- An integer is in range when it lies between the least and the greatest value. -/
def InRange (n : Int) : Prop :=
  Int64.minValue.toInt ≤ n ∧ n ≤ Int64.maxValue.toInt

instance (n : Int) : Decidable (InRange n) :=
  inferInstanceAs (Decidable (_ ∧ _))

/-- The range in decimal digits. -/
theorem inRange_iff {n : Int} :
    InRange n ↔ -9223372036854775808 ≤ n ∧ n ≤ 9223372036854775807 :=
  Iff.rfl

/-- Every value denotes an integer in range. -/
theorem inRange_toInt (value : Int64) : InRange value.toInt :=
  ⟨value.minValue_le_toInt, value.toInt_le⟩

/-- The value that denotes an integer, where there is one. -/
def narrow? (n : Int) : Option Int64 :=
  if InRange n then some (Int64.ofInt n) else none

/-- Narrowing finds exactly the value that denotes the integer. -/
theorem narrow?_eq_some_iff {n : Int} {value : Int64} :
    narrow? n = some value ↔ value.toInt = n := by
  unfold narrow?
  split
  next h =>
    have hexact : (Int64.ofInt n).toInt = n :=
      Int64.toInt_ofInt_of_le h.1 (Int.lt_of_le_of_lt h.2 (by decide))
    constructor
    · intro hfound
      rw [← Option.some.inj hfound, hexact]
    · intro hdenotes
      rw [← hdenotes, Int64.ofInt_toInt]
  next h =>
    constructor
    · intro hfound
      cases hfound
    · intro hdenotes
      exact absurd (hdenotes ▸ inRange_toInt value) h

/-- Narrowing fails exactly out of range. -/
theorem narrow?_eq_none_iff {n : Int} : narrow? n = none ↔ ¬ InRange n := by
  unfold narrow?
  split <;> simp_all

/-- Narrowing the integer of a value finds the value again. -/
@[simp]
theorem narrow?_toInt (value : Int64) : narrow? value.toInt = some value :=
  narrow?_eq_some_iff.mpr rfl

/-- The integers in range are those that values denote. -/
theorem exists_toInt_eq_iff {n : Int} : (∃ value : Int64, value.toInt = n) ↔ InRange n := by
  constructor
  · rintro ⟨value, rfl⟩
    exact inRange_toInt value
  · intro hinside
    have hfound : narrow? n = some _ := if_pos hinside
    exact ⟨_, narrow?_eq_some_iff.mp hfound⟩

/-! ## Operations -/

/-- The reasons for which an operation on integers has no result. -/
inductive ArithmeticError where
  /-- The divisor is zero. -/
  | divisionByZero
  /-- The exact result is out of range.  A negation has zero on the left. -/
  | overflow (lhs : Int64) (symbol : Char) (rhs : Int64)
deriving DecidableEq

/-- The binary operations of the language. -/
inductive Operator where
  | add
  | sub
  | mul
  | div
deriving DecidableEq

namespace Operator

/-- The character that stands for an operation. -/
def symbol : Operator → Char
  | add => '+'
  | sub => '-'
  | mul => '*'
  | div => '/'

/-- The exact result of an operation.  A quotient is cut off toward zero. -/
def exact : Operator → Int → Int → Int
  | add, lhs, rhs => lhs + rhs
  | sub, lhs, rhs => lhs - rhs
  | mul, lhs, rhs => lhs * rhs
  | div, lhs, rhs => lhs.tdiv rhs

/-- Carry out an operation on values.  A zero divisor is noticed before
anything else. -/
def apply (op : Operator) (lhs rhs : Int64) : Except ArithmeticError Int64 :=
  if op = div ∧ rhs = 0 then .error .divisionByZero
  else
    match narrow? (op.exact lhs.toInt rhs.toInt) with
    | some value => .ok value
    | none => .error (.overflow lhs op.symbol rhs)

/-- An operation succeeds exactly with the value of its exact result. -/
theorem apply_eq_ok_iff {op : Operator} {lhs rhs value : Int64} :
    op.apply lhs rhs = .ok value ↔
      ¬ (op = div ∧ rhs = 0) ∧ value.toInt = op.exact lhs.toInt rhs.toInt := by
  unfold apply
  split
  next h => simp [h]
  next h =>
    cases hnarrowed : narrow? (op.exact lhs.toInt rhs.toInt) with
    | none =>
        have houtside := narrow?_eq_none_iff.mp hnarrowed
        simp only [reduceCtorEq, false_iff, not_and]
        intro _ hdenotes
        exact houtside (hdenotes ▸ inRange_toInt value)
    | some found =>
        have hfound := narrow?_eq_some_iff.mp hnarrowed
        constructor
        · intro hsame
          cases hsame
          exact ⟨h, hfound⟩
        · rintro ⟨_, hdenotes⟩
          rw [Int64.toInt_inj.mp (hfound.trans hdenotes.symm)]

/-- Where the exact result is in range, an operation finds the value that denotes it. -/
theorem exists_apply_eq_ok {op : Operator} {lhs rhs : Int64} (hdivisor : ¬ (op = div ∧ rhs = 0))
    (hinside : InRange (op.exact lhs.toInt rhs.toInt)) :
    ∃ value, op.apply lhs rhs = .ok value ∧ value.toInt = op.exact lhs.toInt rhs.toInt := by
  rcases exists_toInt_eq_iff.mpr hinside with ⟨value, hdenotes⟩
  exact ⟨value, apply_eq_ok_iff.mpr ⟨hdivisor, hdenotes⟩, hdenotes⟩

/-- Where the exact result is out of range, an operation overflows. -/
theorem apply_eq_overflow {op : Operator} {lhs rhs : Int64} (hdivisor : ¬ (op = div ∧ rhs = 0))
    (houtside : ¬ InRange (op.exact lhs.toInt rhs.toInt)) :
    op.apply lhs rhs = .error (.overflow lhs op.symbol rhs) := by
  rw [apply, if_neg hdivisor, narrow?_eq_none_iff.mpr houtside]

/-- Dividing by zero fails. -/
theorem apply_eq_divisionByZero {op : Operator} {lhs rhs : Int64} (hzero : op = div ∧ rhs = 0) :
    op.apply lhs rhs = .error .divisionByZero :=
  if_pos hzero

end Operator

/-- Negate a value.  Only the least value has no negation in range. -/
def negate (value : Int64) : Except ArithmeticError Int64 :=
  match narrow? (-value.toInt) with
  | some negated => .ok negated
  | none => .error (.overflow 0 '-' value)

/-- Negating a value is subtracting it from zero. -/
theorem negate_eq_sub (value : Int64) : negate value = Operator.sub.apply 0 value := by
  simp [negate, Operator.apply, Operator.exact, Operator.symbol]

end Calculator
