import Calculator.Arithmetic
import Calculator.Numeral
import Mathlib.Data.List.TakeWhile

/-!
# The numbers that digits denote

Digits are read one after the other, and the reading ends early once the number is too
large.  As more digits never make a number smaller, it ends early exactly when the whole
number is too large.  Written out in digits, a number is read again.

Main results:

- Theorem `Numeral.appendDigits_eq`: what becomes of characters depends on the digits with which
  they start and on whether they are all digits.
- Theorem `Numeral.read_eq_ok_iff_of_isNumeral`: digits are read to the number that they
  denote, if it is not too large.
- Theorem `decimal_toString`: the digits in which a number is written denote it.
- Theorem `toString_int_inj`: different numbers are written differently.
-/

namespace Calculator

/-- A text of one or more digits. -/
def IsNumeral (text : String) : Prop :=
  text.toList ≠ [] ∧ ∀ c ∈ text.toList, c.isDigit = true

namespace Numeral

/-- The number denoted by digits after a number that was read already. -/
def extend (magnitude : Nat) (digits : List Char) : Nat :=
  digits.foldl (fun number digit => number * 10 + digitValue digit) magnitude

/-- The number that the digits of a text denote. -/
def decimal (text : String) : Nat :=
  extend 0 text.toList

theorem extend_cons (magnitude : Nat) (c : Char) (digits : List Char) :
    extend magnitude (c :: digits) = extend (magnitude * 10 + digitValue c) digits := by
  rw [extend, List.foldl_cons, extend]

/-- Further digits never make a number smaller. -/
theorem le_extend (magnitude : Nat) (digits : List Char) : magnitude ≤ extend magnitude digits := by
  induction digits generalizing magnitude with
  | nil => exact Nat.le_refl magnitude
  | cons c digits ih =>
      have hrest := ih (magnitude * 10 + digitValue c)
      rw [extend_cons]
      omega

/-- The number is the one that the characters denote to the base ten. -/
theorem extend_eq_ofDigitChars (magnitude : Nat) (digits : List Char) :
    extend magnitude digits = Nat.ofDigitChars 10 digits magnitude := by
  induction digits generalizing magnitude with
  | nil => rfl
  | cons c digits ih => rw [extend_cons, ih, Nat.ofDigitChars_cons, Nat.mul_comm, digitValue]

/-- Characters are appended until the digits in front take the number beyond the limit.  A
character that is no digit counts only if they do not. -/
theorem appendDigits_eq {limit magnitude : Nat} {beyond : Fault} {characters : List Char}
    (hmagnitude : magnitude ≤ limit) :
    appendDigits limit beyond magnitude characters =
      if limit < extend magnitude (characters.takeWhile Char.isDigit) then .error beyond
      else if characters.all Char.isDigit then .ok (extend magnitude characters)
      else .error .malformed := by
  induction characters generalizing magnitude with
  | nil =>
      have hle : ¬ limit < extend magnitude [] := Nat.not_lt.mpr hmagnitude
      rw [appendDigits, List.takeWhile_nil, if_neg hle, if_pos List.all_nil]
      rfl
  | cons c characters ih =>
    by_cases hc : c.isDigit = true
    · rw [appendDigits, if_pos hc, List.takeWhile_cons_of_pos hc, extend_cons, extend_cons]
      by_cases hextended : magnitude * 10 + digitValue c ≤ limit
      · rw [if_pos hextended, ih hextended, List.all_cons, hc, Bool.true_and]
      · have hlarge := le_extend (magnitude * 10 + digitValue c)
          (characters.takeWhile Char.isDigit)
        rw [if_neg hextended, if_pos (by omega)]
    · have hle : ¬ limit < extend magnitude [] := Nat.not_lt.mpr hmagnitude
      rw [appendDigits, if_neg hc, List.takeWhile_cons_of_neg hc, if_neg hle,
        if_neg fun hall => hc (List.all_eq_true.mp hall c List.mem_cons_self)]

/-- Digits within the limit are appended, and others are not. -/
theorem appendDigits_of_isDigit {limit magnitude : Nat} {beyond : Fault} {digits : List Char}
    (hdigits : ∀ c ∈ digits, c.isDigit = true) (hmagnitude : magnitude ≤ limit) :
    appendDigits limit beyond magnitude digits =
      if extend magnitude digits ≤ limit then .ok (extend magnitude digits)
      else .error beyond := by
  rw [appendDigits_eq hmagnitude, List.takeWhile_eq_self_iff.mpr hdigits,
    if_pos (List.all_eq_true.mpr hdigits)]
  by_cases hle : extend magnitude digits ≤ limit
  · rw [if_pos hle, if_neg (Nat.not_lt.mpr hle)]
  · rw [if_neg hle, if_pos (Nat.lt_of_not_le hle)]

theorem readChars_of_isDigit {c : Char} {digits : List Char} (hc : c.isDigit = true) :
    readChars (c :: digits) =
      (readMagnitude positiveLimit .tooLarge (c :: digits)).map fun magnitude =>
        Int64.ofInt magnitude := by
  unfold readChars
  split
  next heq => cases heq; cases hc
  next heq => cases heq; cases hc
  next => rfl

/-- Digits are read to the value that denotes their number. -/
theorem read_of_isNumeral {text : String} (hnumeral : IsNumeral text) :
    read text =
      if decimal text ≤ positiveLimit then .ok (Int64.ofInt (decimal text))
      else .error .tooLarge := by
  rcases hnumeral with ⟨hne, hdigits⟩
  rcases List.exists_cons_of_ne_nil hne with ⟨c, digits, hcons⟩
  have hc : c.isDigit = true := hdigits c (by simp [hcons])
  have happend : appendDigits positiveLimit .tooLarge 0 text.toList = _ :=
    appendDigits_of_isDigit hdigits (Nat.zero_le positiveLimit)
  rw [read, decimal, hcons, readChars_of_isDigit hc, readMagnitude, ← hcons, happend]
  · split <;> rfl
  · simp

/-- Digits are read to a value exactly when their number is not too large, and the value
denotes the number. -/
theorem read_eq_ok_iff_of_isNumeral {text : String} {value : Int64}
    (hnumeral : IsNumeral text) :
    read text = .ok value ↔ decimal text ≤ positiveLimit ∧ value.toInt = decimal text := by
  rw [read_of_isNumeral hnumeral]
  by_cases hle : decimal text ≤ positiveLimit
  · have hrange : InRange (decimal text) := by
      have hlimit : positiveLimit = 9223372036854775807 := rfl
      rw [inRange_iff]
      omega
    have hnarrow : narrow? (decimal text) = some (Int64.ofInt (decimal text)) := if_pos hrange
    rw [if_pos hle, and_iff_right hle, ← narrow?_eq_some_iff, hnarrow]
    simp
  · rw [if_neg hle]
    exact iff_of_false (by simp) fun hboth => hle hboth.1

end Numeral

/-! ## Numbers as texts -/

section ToString

variable {m m' : Nat}

/-- A number is written in one or more digits. -/
theorem isNumeral_toString (m : Nat) : IsNumeral (toString m) := by
  rw [IsNumeral, Nat.toString_eq_repr, Nat.toList_repr]
  exact ⟨Nat.toDigits_ne_nil, fun c hc => Nat.isDigit_of_mem_toDigits (by decide) (by decide) hc⟩

/-- The digits of a number denote the number. -/
theorem decimal_toString (m : Nat) : Numeral.decimal (toString m) = m := by
  rw [Numeral.decimal, Numeral.extend_eq_ofDigitChars, Nat.toString_eq_repr, Nat.toList_repr,
    Nat.ofDigitChars_ten_toDigits]

/-- As an integer, a number is written the same. -/
theorem toString_natCast (m : Nat) : toString (m : Int) = toString m := by
  rw [Int.toString_eq_repr, Int.repr_eq_if, if_pos (Int.natCast_nonneg m), Int.toNat_natCast,
    Nat.toString_eq_repr]

/-- A negative number is written with a minus in front of its magnitude. -/
theorem toString_neg_natCast (hpos : 0 < m) : toString (-(m : Int)) = "-" ++ toString m := by
  rw [Int.toString_eq_repr, Int.repr_eq_if, if_neg (by omega), Int.neg_neg, Int.toNat_natCast,
    Nat.toString_eq_repr]

theorem toString_negSucc (m : Nat) : toString (Int.negSucc m) = "-" ++ toString (m + 1) :=
  toString_neg_natCast (Nat.succ_pos m)

/-- No digit of a number is a minus. -/
theorem toString_ne_minus_append (m : Nat) (text : String) : toString m ≠ "-" ++ text := by
  intro hsame
  have hminus := (isNumeral_toString m).2 '-'
  rw [hsame, String.toList_append] at hminus
  exact absurd (hminus (List.mem_append_left _ (List.mem_singleton_self _))) (by decide)

/-- Numbers are written differently if they are different. -/
theorem toString_nat_inj : toString m = toString m' ↔ m = m' := by
  constructor
  · intro hsame
    rw [← decimal_toString m, hsame, decimal_toString]
  · rintro rfl
    rfl

/-- Integers are written differently if they are different. -/
theorem toString_int_inj {n n' : Int} : toString n = toString n' ↔ n = n' := by
  constructor
  · intro hsame
    cases n with
    | ofNat m =>
        cases n' with
        | ofNat m' =>
            rw [Int.ofNat_eq_natCast, Int.ofNat_eq_natCast, toString_natCast, toString_natCast,
              toString_nat_inj] at hsame
            rw [hsame]
        | negSucc m' =>
            rw [Int.ofNat_eq_natCast, toString_natCast, toString_negSucc] at hsame
            exact absurd hsame (toString_ne_minus_append m _)
    | negSucc m =>
        cases n' with
        | ofNat m' =>
            rw [Int.ofNat_eq_natCast, toString_natCast, toString_negSucc] at hsame
            exact absurd hsame.symm (toString_ne_minus_append m' _)
        | negSucc m' =>
            rw [toString_negSucc, toString_negSucc, String.append_right_inj,
              toString_nat_inj] at hsame
            rw [Nat.succ.inj hsame]
  · rintro rfl
    rfl

end ToString

end Calculator
