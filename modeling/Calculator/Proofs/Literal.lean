import Calculator.Proofs.Decimal
import Calculator.Proofs.Reading
import Mathlib.Algebra.Group.Int.Defs
import Mathlib.Algebra.Group.Nat.Defs

/-!
# Literals

The text of a number is read from the left, and the reading ends at the first character that
decides it.  What it comes to can be said of the text as a whole: it has a value if it is a
number with at most one sign and the number is in range, and it is too large if the digits behind
the sign start with a number that is, whatever follows them.  Any other text is malformed, also
one for a number below the range.

Main results:

- Theorem `Numeral.read_eq_ok_iff`: the texts that have a value.
- Theorem `Numeral.read_eq_tooLarge_iff`: the texts that are too large.
- Theorem `literal_determined`: what becomes of the text of a number, wherever it stands.
-/

namespace Calculator

/-- The range in powers of two. -/
theorem inRange_iff_pow {n : Int} : InRange n ↔ -2 ^ 63 ≤ n ∧ n ≤ 2 ^ 63 - 1 := by
  rw [inRange_iff]
  omega

namespace Numeral

/-! ## Signs -/

/-- The characters behind the sign, if there is one. -/
def unsigned : List Char → List Char
  | '-' :: characters => characters
  | '+' :: characters => characters
  | characters => characters

/-- The text starts with a minus. -/
def IsNegative (text : String) : Prop :=
  text.toList.head? = some '-'

instance (text : String) : Decidable (IsNegative text) :=
  inferInstanceAs (Decidable (_ = _))

/-- The text is a number of one or more digits, perhaps with a sign in front. -/
def IsSignedNumeral (text : String) : Prop :=
  unsigned text.toList ≠ [] ∧ ∀ c ∈ unsigned text.toList, c.isDigit = true

instance (text : String) : Decidable (IsSignedNumeral text) :=
  inferInstanceAs (Decidable (_ ∧ _))

/-- The number that a text denotes, with the sign in front. -/
def signedDecimal (text : String) : Int :=
  if IsNegative text then -(Nat.ofDigitChars 10 (unsigned text.toList) 0 : Int)
  else Nat.ofDigitChars 10 (unsigned text.toList) 0

/-- The number denoted by the digits right behind the sign, up to the first other character. -/
def leadingDecimal (text : String) : Nat :=
  Nat.ofDigitChars 10 ((unsigned text.toList).takeWhile Char.isDigit) 0

section Read

variable {limit : Nat} {beyond : Fault} {characters : List Char} {text : String}

/-- A magnitude is read from one or more digits within the limit. -/
theorem readMagnitude_eq :
    readMagnitude limit beyond characters =
      if limit < extend 0 (characters.takeWhile Char.isDigit) then .error beyond
      else if characters ≠ [] ∧ characters.all Char.isDigit then .ok (extend 0 characters)
      else .error .malformed := by
  cases characters with
  | nil => simp [readMagnitude, extend]
  | cons c rest =>
      show appendDigits limit beyond 0 (c :: rest) = _
      rw [appendDigits_eq (Nat.zero_le limit)]
      simp

/-- Behind a minus, the magnitude may be greater by one, and the number is too small if it is
greater still. -/
theorem read_of_isNegative (hnegative : IsNegative text) :
    read text =
      (readMagnitude negativeLimit .tooSmall (unsigned text.toList)).map
        fun magnitude : Nat => Int64.ofInt (-(magnitude : Int)) := by
  rcases List.head?_eq_some_iff.mp hnegative with ⟨rest, hcons⟩
  rw [read, hcons, readChars, unsigned]
  cases readMagnitude negativeLimit .tooSmall rest <;> rfl

/-- A plus in front makes no difference. -/
theorem read_of_not_isNegative (hnegative : ¬ IsNegative text) :
    read text =
      (readMagnitude positiveLimit .tooLarge (unsigned text.toList)).map
        fun magnitude : Nat => Int64.ofInt (magnitude : Int) := by
  unfold IsNegative at hnegative
  rw [read]
  generalize text.toList = characters at hnegative ⊢
  fun_cases unsigned characters with
  | case1 digits => simp at hnegative
  | case2 digits =>
      rw [readChars]
      cases readMagnitude positiveLimit .tooLarge digits <;> rfl
  | case3 _ hminus hplus =>
      rw [readChars.eq_3 characters hminus hplus]
      cases readMagnitude positiveLimit .tooLarge characters <;> rfl

/-! ## The whole text -/

theorem positiveLimit_eq : positiveLimit = 2 ^ 63 - 1 :=
  rfl

theorem negativeLimit_eq : negativeLimit = 2 ^ 63 :=
  rfl

/-- The digits in front denote no more than all of them. -/
theorem leadingDecimal_of_isSignedNumeral (hnumeral : IsSignedNumeral text) :
    leadingDecimal text = Nat.ofDigitChars 10 (unsigned text.toList) 0 := by
  rw [leadingDecimal, List.takeWhile_eq_self_iff.mpr hnumeral.2]

/-- A magnitude is read from the text of a number whose digits stay within the limit. -/
theorem readMagnitude_unsigned :
    readMagnitude limit beyond (unsigned text.toList) =
      if limit < leadingDecimal text then .error beyond
      else if IsSignedNumeral text then .ok (Nat.ofDigitChars 10 (unsigned text.toList) 0)
      else .error .malformed := by
  have hall : IsSignedNumeral text ↔
      unsigned text.toList ≠ [] ∧ (unsigned text.toList).all Char.isDigit := by
    rw [IsSignedNumeral, List.all_eq_true]
  rw [readMagnitude_eq, extend_eq_ofDigitChars, extend_eq_ofDigitChars]
  simp only [hall]
  rfl

/-- Where the magnitudes within the limit are those of numbers in range, the text of a number in
range is read to the value that denotes it. -/
theorem map_readMagnitude_eq_ok_iff {number : Nat → Int} {value : Int64}
    (hrange : ∀ magnitude, magnitude ≤ limit ↔ InRange (number magnitude)) :
    (readMagnitude limit beyond (unsigned text.toList)).map
        (fun magnitude => Int64.ofInt (number magnitude)) = .ok value ↔
      IsSignedNumeral text ∧
        value.toInt = number (Nat.ofDigitChars 10 (unsigned text.toList) 0) := by
  rw [readMagnitude_unsigned]
  by_cases hnumeral : IsSignedNumeral text
  · rw [if_pos hnumeral, and_iff_right hnumeral, ← leadingDecimal_of_isSignedNumeral hnumeral]
    by_cases hlarge : limit < leadingDecimal text
    · have houtside := mt (hrange (leadingDecimal text)).mpr (Nat.not_le.mpr hlarge)
      rw [if_pos hlarge]
      exact iff_of_false (by simp [Except.map]) fun hvalue =>
        houtside (exists_toInt_eq_iff.mp ⟨value, hvalue⟩)
    · have hinside : narrow? (number (leadingDecimal text)) = some _ :=
        if_pos ((hrange _).mp (Nat.le_of_not_lt hlarge))
      rw [if_neg hlarge, ← narrow?_eq_some_iff, hinside]
      simp [Except.map]
  · refine iff_of_false (fun hread => ?_) fun hboth => hnumeral hboth.1
    rw [if_neg hnumeral] at hread
    split at hread <;> cases hread

/-- A text has a value exactly if it is a number in range, and the value denotes the number. -/
theorem read_eq_ok_iff {value : Int64} :
    read text = .ok value ↔ IsSignedNumeral text ∧ value.toInt = signedDecimal text := by
  unfold signedDecimal
  by_cases hnegative : IsNegative text
  · rw [read_of_isNegative hnegative, if_pos hnegative]
    apply map_readMagnitude_eq_ok_iff
    intro magnitude
    rw [inRange_iff, negativeLimit_eq]
    omega
  · rw [read_of_not_isNegative hnegative, if_neg hnegative]
    apply map_readMagnitude_eq_ok_iff
    intro magnitude
    rw [inRange_iff, positiveLimit_eq]
    omega

/-- A text is too large exactly if it has no minus and its digits start with a number above the
greatest value. -/
theorem read_eq_tooLarge_iff :
    read text = .error .tooLarge ↔ ¬ IsNegative text ∧ 2 ^ 63 - 1 < leadingDecimal text := by
  by_cases hnegative : IsNegative text
  · refine iff_of_false (fun hread => ?_) fun hboth => hboth.1 hnegative
    rw [read_of_isNegative hnegative, readMagnitude_unsigned] at hread
    split at hread
    · cases hread
    · split at hread <;> cases hread
  · rw [read_of_not_isNegative hnegative, readMagnitude_unsigned, positiveLimit_eq,
      and_iff_right hnegative]
    by_cases hlarge : 2 ^ 63 - 1 < leadingDecimal text
    · rw [if_pos hlarge]
      exact iff_of_true rfl hlarge
    · rw [if_neg hlarge]
      refine iff_of_false (fun hread => ?_) hlarge
      split at hread <;> cases hread

/-- All other texts are malformed. -/
theorem exists_read_eq_error_iff :
    (∃ fault, read text = .error fault ∧ fault ≠ .tooLarge) ↔
      ¬ (IsSignedNumeral text ∧ InRange (signedDecimal text)) ∧
        ¬ (¬ IsNegative text ∧ 2 ^ 63 - 1 < leadingDecimal text) := by
  rw [← read_eq_tooLarge_iff]
  cases hread : read text with
  | ok value =>
      rcases read_eq_ok_iff.mp hread with ⟨hnumeral, hvalue⟩
      exact iff_of_false (by simp) fun hneither =>
        hneither.1 ⟨hnumeral, exists_toInt_eq_iff.mp ⟨value, hvalue⟩⟩
  | error fault =>
      have hnone : ¬ (IsSignedNumeral text ∧ InRange (signedDecimal text)) := by
        intro hboth
        rcases exists_toInt_eq_iff.mpr hboth.2 with ⟨value, hvalue⟩
        have hok := read_eq_ok_iff.mpr ⟨hboth.1, hvalue⟩
        rw [hread] at hok
        cases hok
      simp [hnone]

end Read

end Numeral

/-! ## The number behind the cursor -/

namespace Parser

variable {session : Session} {text : String}

/-- The number is answered with its value if its text has one. -/
theorem literal_eq_ok_iff {value : Int64} :
    literal text session = .ok value session ↔ Numeral.read text = .ok value := by
  cases hread : Numeral.read text with
  | ok found => simp [literal_ok hread]
  | error fault => simp [literal_error hread]

/-- It is reported as too large if its text is. -/
theorem literal_eq_tooLarge_iff :
    literal text session =
        .error (.failure (.grammatical (.literalTooLarge text session.cursor.position))) session ↔
      Numeral.read text = .error .tooLarge := by
  cases hread : Numeral.read text with
  | ok found => simp [literal_ok hread]
  | error fault => cases fault <;> simp [literal_error hread, Numeral.Fault.error]

/-- It is reported as malformed for any other fault of its text. -/
theorem literal_eq_malformed_iff :
    literal text session =
        .error (.failure (.grammatical (.malformedLiteral text session.cursor.position))) session ↔
      ∃ fault, Numeral.read text = .error fault ∧ fault ≠ .tooLarge := by
  cases hread : Numeral.read text with
  | ok found => simp [literal_ok hread]
  | error fault => cases fault <;> simp [literal_error hread, Numeral.Fault.error]

end Parser

/-- What becomes of the number behind the cursor.  It has a value exactly if its text is one or
more digits with at most one sign in front, for a number in range, and the value denotes the
number.  It is too large exactly if there is no minus and the digits right behind the sign denote
a number above the greatest value, whatever follows them.  In all other cases it is malformed. -/
theorem literal_determined (session : Session) (token : Token)
    (htoken : session.cursor.tokens[session.cursor.position]? = some token)
    (hkind : token.kind = .number) :
    (∀ n : Int,
      (∃ value : Int64, value.toInt = n ∧
          Parser.unary session = .ok value (session.enter .unary).advance) ↔
        Numeral.IsSignedNumeral token.text ∧ n = Numeral.signedDecimal token.text ∧
          -2 ^ 63 ≤ n ∧ n ≤ 2 ^ 63 - 1) ∧
    (Parser.unary session =
          .error (.failure (.grammatical
            (.literalTooLarge token.text (session.cursor.position + 1))))
            (session.enter .unary).advance ↔
        ¬ Numeral.IsNegative token.text ∧ 2 ^ 63 - 1 < Numeral.leadingDecimal token.text) ∧
    (Parser.unary session =
          .error (.failure (.grammatical
            (.malformedLiteral token.text (session.cursor.position + 1))))
            (session.enter .unary).advance ↔
        ¬ (Numeral.IsSignedNumeral token.text ∧ -2 ^ 63 ≤ Numeral.signedDecimal token.text ∧
            Numeral.signedDecimal token.text ≤ 2 ^ 63 - 1) ∧
          ¬ (¬ Numeral.IsNegative token.text ∧
            2 ^ 63 - 1 < Numeral.leadingDecimal token.text)) := by
  have hhead : session.upcoming.head? = some token := by
    rw [← htoken]
    simp [Session.upcoming]
  rcases List.head?_eq_some_iff.mp hhead with ⟨others, hnext⟩
  rw [Parser.unary_number hnext hkind]
  refine ⟨fun n => ?_, ?_, ?_⟩
  · simp only [Parser.literal_eq_ok_iff, Numeral.read_eq_ok_iff]
    rw [← inRange_iff_pow]
    constructor
    · rintro ⟨value, rfl, hnumeral, hvalue⟩
      exact ⟨hnumeral, hvalue, inRange_toInt value⟩
    · rintro ⟨hnumeral, rfl, hrange⟩
      rcases exists_toInt_eq_iff.mpr hrange with ⟨value, hvalue⟩
      exact ⟨value, hvalue, hnumeral, hvalue⟩
  · exact Parser.literal_eq_tooLarge_iff.trans Numeral.read_eq_tooLarge_iff
  · rw [← inRange_iff_pow]
    exact Parser.literal_eq_malformed_iff.trans Numeral.exists_read_eq_error_iff

/-- Between a minus and the closing marker, in front of a number with the given text. -/
def Session.beforeNumber (text : String) : Session where
  cursor :=
    { tokens := #[⟨.minus, "-"⟩, ⟨.number, text⟩, ⟨.endOfInput, ""⟩]
      nestingLimit := some 256
      position := 1
      canUnread := true
      depth := 1 }
  log := #[]

/-- The least value has a literal, though its magnitude has none, whatever follows the digits, and
a number below the least value is malformed. -/
theorem literal_determined_around_least_value :
    (∃ value : Int64, value.toInt = -2 ^ 63 ∧
        Parser.unary (.beforeNumber "-009223372036854775808") =
          .ok value ((Session.beforeNumber "-009223372036854775808").enter .unary).advance) ∧
      Parser.unary (.beforeNumber "+9223372036854775808x") =
        .error (.failure (.grammatical (.literalTooLarge "+9223372036854775808x" 2)))
          ((Session.beforeNumber "+9223372036854775808x").enter .unary).advance ∧
      Parser.unary (.beforeNumber "-9223372036854775809") =
        .error (.failure (.grammatical (.malformedLiteral "-9223372036854775809" 2)))
          ((Session.beforeNumber "-9223372036854775809").enter .unary).advance := by
  have hnumeral : Numeral.IsSignedNumeral "-009223372036854775808" := by
    simp [Numeral.IsSignedNumeral, Numeral.unsigned]
  have hleast : -2 ^ 63 = Numeral.signedDecimal "-009223372036854775808" := by decide
  have hplus : ¬ Numeral.IsNegative "+9223372036854775808x" := by simp [Numeral.IsNegative]
  have hlarge : 2 ^ 63 - 1 < Numeral.leadingDecimal "+9223372036854775808x" := by decide
  have hminus : Numeral.IsNegative "-9223372036854775809" := by simp [Numeral.IsNegative]
  have hsmall : Numeral.signedDecimal "-9223372036854775809" = -2 ^ 63 - 1 := by decide
  refine ⟨?_, ?_, ?_⟩
  · exact ((literal_determined (.beforeNumber _) ⟨.number, _⟩ rfl rfl).1 _).mpr
      ⟨hnumeral, hleast, by decide, by decide⟩
  · exact (literal_determined (.beforeNumber _) ⟨.number, _⟩ rfl rfl).2.1.mpr ⟨hplus, hlarge⟩
  · exact (literal_determined (.beforeNumber _) ⟨.number, _⟩ rfl rfl).2.2.mpr
      ⟨fun hvalue => by rw [hsmall] at hvalue; omega, fun hpositive => hpositive.1 hminus⟩

end Calculator
