import Calculator.Proofs.Machine.Control
import Calculator.Proofs.Precedence
import Calculator.Proofs.Source
import Calculator.Proofs.Stranger
import Mathlib.Algebra.Ring.Commute
import Mathlib.Algebra.Ring.Int.Defs

/-!
# Minuses at the start of terms

Where minuses in the place of an operand only stand at the start of a term, the language and
the convention group the same tokens in different ways: the one negates the whole product in
the end, the other its first factor in the beginning.  As products and truncated quotients
keep their magnitude when a factor changes its sign, the two agree on the value.

They can only disagree on what is in range.  The language multiplies the magnitudes, and
`2 ^ 63` is out of range, whereas the convention may come to the same magnitude with a minus
in front, which is in range.

Main results:

- Theorem `apply_tallies`: one step of a product on a magnitude and on a signed value.
- Theorem `Conventional.step_tallies`: one token read by the machine and by the pass.
- Theorem `evaluate_conventional`: evaluation and conventional evaluation of a source.
-/

namespace Calculator

/-! ## Where the minuses stand -/

/-- Every minus in the place of an operand stands in a run of such minuses, not more than the
given number up to itself, at the front or right after a sign between two terms. -/
def MinusesLead (limit : Nat) (tokens : List Token) : Prop :=
  ∀ i < tokens.length, UnaryMinusAt tokens i →
    ∃ start ≤ i, i < start + limit ∧ (start = 0 ∨ BinarySignAt tokens (start - 1)) ∧
      ∀ k ≤ i, start ≤ k → UnaryMinusAt tokens k

instance (limit : Nat) (tokens : List Token) : Decidable (MinusesLead limit tokens) :=
  inferInstanceAs (Decidable (∀ i < tokens.length, UnaryMinusAt tokens i →
    ∃ start ≤ i, i < start + limit ∧ (start = 0 ∨ BinarySignAt tokens (start - 1)) ∧
      ∀ k ≤ i, start ≤ k → UnaryMinusAt tokens k))

theorem Operator.kind_awaitsOperand (op : Operator) : op.kind.AwaitsOperand := by
  cases op <;> simp [kind, Token.Kind.AwaitsOperand]

section MinusesLead

variable {limit start : Nat} {read others : List Token} {token last : Token}

/-- The run of a minus starts in front of it or at it. -/
theorem MinusesLead.exists_start (hlead : MinusesLead limit (read ++ token :: others))
    (hunary : IsUnaryMinus read token) :
    ∃ start ≤ read.length, read.length < start + limit ∧
      (start = 0 ∨ BinarySignAt read (start - 1)) ∧
        ∀ k < read.length, start ≤ k → UnaryMinusAt read k := by
  rcases hlead read.length (by simp) (unaryMinusAt_length.mpr hunary) with
    ⟨start, hstart, hlimit, hsign, hrun⟩
  refine ⟨start, hstart, hlimit, ?_, ?_⟩
  · by_cases hzero : start = 0
    · exact .inl hzero
    · have hlt : start - 1 < read.length := by omega
      rw [binarySignAt_append_of_lt hlt] at hsign
      exact hsign
  · intro k hk hstart
    have hunary := hrun k (Nat.le_of_lt hk) hstart
    rwa [unaryMinusAt_append_of_lt hk] at hunary

/-- The negations open after a run are in the run, if the run follows a sign between terms. -/
theorem openMinuses_le (hstart : start ≤ read.length)
    (hsign : start = 0 ∨ BinarySignAt read (start - 1)) :
    openMinuses read ≤ read.length - start :=
  countSince_le hstart hsign fun hbinary => hbinary.not_isUnaryMinus

/-- In front of a leading minus there is room for one more negation. -/
theorem MinusesLead.openMinuses_lt (hlead : MinusesLead limit (read ++ token :: others))
    (hunary : IsUnaryMinus read token) : openMinuses read < limit := by
  rcases hlead.exists_start hunary with ⟨start, hstart, hlimit, hsign, -⟩
  have hle := openMinuses_le hstart hsign
  omega

/-- A leading minus does not follow an operation of a product. -/
theorem MinusesLead.kind_of_getLast? (hlead : MinusesLead limit (read ++ token :: others))
    (hunary : IsUnaryMinus read token) (hlast : last ∈ read.getLast?) :
    last.kind = .plus ∨ last.kind = .minus := by
  rcases hlead.exists_start hunary with ⟨start, hstart, -, hsign, hrun⟩
  rcases List.getLast?_eq_some_iff.mp hlast with ⟨front, rfl⟩
  rw [List.length_append, List.length_singleton] at hstart hrun
  by_cases hfirst : start ≤ front.length
  · rcases unaryMinusAt_length.mp (hrun front.length (by omega) hfirst) with ⟨hminus, -⟩
    exact .inr hminus
  · have hsame : start - 1 = front.length := by omega
    rw [hsame, binarySignAt_length] at hsign
    rcases hsign with hzero | hplus | ⟨hminus, -⟩
    · omega
    · exact .inl hplus
    · exact .inr hminus

end MinusesLead

/-! ## Magnitudes and signs -/

/-- A value has a magnitude, after a number of changes of its sign. -/
structure Signed (count : Nat) (magnitude value : Int64) : Prop where
  nonneg : 0 ≤ magnitude.toInt
  toInt_eq : value.toInt = (-1) ^ count * magnitude.toInt

/-- An evaluation and a conventional one come out even: both have results that agree, or
neither has one, or the evaluation stops short of the magnitude `2 ^ 63`. -/
inductive Tallies {α β : Type} (agree : α → β → Prop) : Except Failure α → Option β → Prop where
  | both {result : α} {result' : β} (hagree : agree result result') :
      Tallies agree (.ok result) (some result')
  | neither (cause : Failure) : Tallies agree (.error cause) none
  | boundary {lhs rhs : Int64} (hproduct : lhs.toInt * rhs.toInt = 2 ^ 63)
      (other : Option β) : Tallies agree (.error (.arithmetic (.overflow lhs '*' rhs))) other

/-- Runs come out even if their first portions do and all further portions do. -/
theorem Tallies.bind {α β γ δ : Type} {agree : α → β → Prop} {agree' : γ → δ → Prop}
    {first : Except Failure α} {first' : Option β} {continuation : α → Except Failure γ}
    {continuation' : β → Option δ} (hfirst : Tallies agree first first')
    (hnext : ∀ result result', agree result result' →
      Tallies agree' (continuation result) (continuation' result')) :
    Tallies agree' (first >>= continuation) (first'.bind continuation') := by
  cases hfirst with
  | both hagree => exact hnext _ _ hagree
  | neither cause => exact .neither cause
  | boundary hproduct other => exact .boundary hproduct _

section Products

variable {op : Operator} {count : Nat} {magnitude value rhs : Int64} {n m : Int}

/-- The sign of the left operand is that of the product or the quotient. -/
theorem Operator.exact_signed (hlevel : op.level = .product) :
    op.exact ((-1) ^ count * n) m = (-1) ^ count * op.exact n m := by
  cases op with
  | add => cases hlevel
  | sub => cases hlevel
  | mul => exact Int.mul_assoc _ n m
  | div =>
      rcases neg_one_pow_eq_or ℤ count with hsign | hsign
      · rw [hsign, Int.one_mul, Int.one_mul]
      · rw [hsign, Int.neg_one_mul, Int.neg_one_mul]
        exact Int.neg_tdiv n m

/-- Magnitudes have a product and a quotient that are magnitudes. -/
theorem Operator.exact_nonneg (hlevel : op.level = .product) (hn : 0 ≤ n) (hm : 0 ≤ m) :
    0 ≤ op.exact n m := by
  cases op with
  | add => cases hlevel
  | sub => cases hlevel
  | mul => exact Int.mul_nonneg hn hm
  | div => exact Int.tdiv_nonneg hn hm

/-- A sign does not take a magnitude out of range. -/
theorem inRange_signed (hn : 0 ≤ n) (hrange : InRange n) : InRange ((-1) ^ count * n) := by
  rw [inRange_iff] at hrange ⊢
  rcases neg_one_pow_eq_or ℤ count with hsign | hsign <;> rw [hsign] <;> omega

/-- Only one magnitude is brought into range by a sign. -/
theorem eq_of_inRange_signed (hn : 0 ≤ n) (hrange : ¬ InRange n)
    (hsigned : InRange ((-1) ^ count * n)) : n = 2 ^ 63 := by
  rw [inRange_iff] at hrange hsigned
  rcases neg_one_pow_eq_or ℤ count with hsign | hsign <;> rw [hsign] at hsigned <;> omega

/-- A quotient of magnitudes is in range. -/
theorem inRange_tdiv (hmagnitude : 0 ≤ magnitude.toInt) (hrhs : 0 ≤ rhs.toInt) :
    InRange (magnitude.toInt.tdiv rhs.toInt) := by
  have hquotient := Int.tdiv_nonneg hmagnitude hrhs
  have hle := Int.tdiv_le_self rhs.toInt hmagnitude
  have hrange := inRange_iff.mp (inRange_toInt magnitude)
  rw [inRange_iff]
  omega

/-- A step of a product on a magnitude and on the signed value come out even. -/
theorem apply_tallies (hlevel : op.level = .product) (hsigned : Signed count magnitude value)
    (hrhs : 0 ≤ rhs.toInt) :
    Tallies (Signed count) ((op.apply magnitude rhs).mapError .arithmetic)
      (op.apply value rhs).toOption := by
  rcases hsigned with ⟨hmagnitude, hvalue⟩
  have hexact : op.exact value.toInt rhs.toInt =
      (-1) ^ count * op.exact magnitude.toInt rhs.toInt := by
    rw [hvalue, Operator.exact_signed hlevel]
  have hnonneg : 0 ≤ op.exact magnitude.toInt rhs.toInt :=
    Operator.exact_nonneg hlevel hmagnitude hrhs
  by_cases hdivisor : op = .div ∧ rhs = 0
  · rw [Operator.apply_eq_divisionByZero hdivisor, Operator.apply_eq_divisionByZero hdivisor]
    exact .neither _
  · by_cases hrange : InRange (op.exact magnitude.toInt rhs.toInt)
    · have hrange' : InRange (op.exact value.toInt rhs.toInt) := by
        rw [hexact]
        exact inRange_signed hnonneg hrange
      rcases Operator.exists_apply_eq_ok hdivisor hrange with ⟨result, hresult, hto⟩
      rcases Operator.exists_apply_eq_ok hdivisor hrange' with ⟨result', hresult', hto'⟩
      rw [hresult, hresult']
      exact .both ⟨by rw [hto]; exact hnonneg, by rw [hto', hexact, hto]⟩
    · -- the magnitude is out of range; its opposite is in range at `2 ^ 63` only
      rw [Operator.apply_eq_overflow hdivisor hrange]
      by_cases hrange' : InRange (op.exact value.toInt rhs.toInt)
      · rw [hexact] at hrange'
        have hboundary := eq_of_inRange_signed hnonneg hrange hrange'
        cases op with
        | add => cases hlevel
        | sub => cases hlevel
        | mul => exact .boundary hboundary _
        | div => exact absurd (inRange_tdiv hmagnitude hrhs) hrange
      · rw [Operator.apply_eq_overflow hdivisor hrange']
        exact .neither _

end Products

/-! ## Changing signs -/

section Signs

variable {count : Nat} {magnitude value : Int64}

/-- Closing negations around a value is negating it as often. -/
theorem toOption_close_replicate (count : Nat) (value : Int64) :
    (Machine.close (List.replicate count none) value).toOption =
      Conventional.negateTimes? count value := by
  induction count generalizing value with
  | zero => rfl
  | succ count ih =>
      rw [List.replicate_succ, Machine.close, Conventional.negateTimes?]
      cases negate value with
      | ok negated => exact ih negated
      | error error => rfl

/-- A value above the least one can be negated any number of times. -/
theorem exists_close_replicate (count : Nat) (hvalue : -2 ^ 63 < value.toInt) :
    ∃ result, Machine.close (List.replicate count none) value = .ok result ∧
      result.toInt = (-1) ^ count * value.toInt := by
  induction count generalizing value with
  | zero => exact ⟨value, rfl, (Int.one_mul _).symm⟩
  | succ count ih =>
      have hrange := inRange_iff.mp (inRange_toInt value)
      have hnarrow : narrow? (-value.toInt) = some _ := if_pos (inRange_iff.mpr (by omega))
      have hnegated := narrow?_eq_some_iff.mp hnarrow
      rcases ih (by rw [hnegated]; omega) with ⟨result, hclose, hresult⟩
      refine ⟨result, ?_, ?_⟩
      · rw [List.replicate_succ, Machine.close, negate, hnarrow]
        exact hclose
      · rw [hresult, hnegated, pow_succ, Int.mul_assoc, Int.neg_one_mul]

/-- Behind as many negations as it has signs, the magnitude has become the value. -/
theorem Signed.close_replicate (hsigned : Signed count magnitude value) :
    Machine.close (List.replicate count none) magnitude = .ok value := by
  rcases hsigned with ⟨hnonneg, hvalue⟩
  rcases exists_close_replicate count (show -2 ^ 63 < magnitude.toInt by omega) with
    ⟨result, hclose, hresult⟩
  rw [hclose, Int64.toInt_inj.mp (hresult.trans hvalue.symm)]

/-- What is settled in the end is what the signed value adds to the sum. -/
theorem Signed.settle_replicate {sum : Option Machine.Pending}
    (hsigned : Signed count magnitude value) :
    Machine.settle sum (List.replicate count none) magnitude = Machine.combine sum value := by
  rw [Machine.settle, hsigned.close_replicate]
  rfl

/-- A magnitude has a signed value after any number of minuses. -/
theorem exists_signed (count : Nat) (hnonneg : 0 ≤ magnitude.toInt) :
    ∃ value, Conventional.negateTimes? count magnitude = some value ∧
      Signed count magnitude value := by
  rcases exists_close_replicate count (show -2 ^ 63 < magnitude.toInt by omega) with
    ⟨value, hclose, hvalue⟩
  refine ⟨value, ?_, hnonneg, hvalue⟩
  rw [← toOption_close_replicate, hclose]
  rfl

end Signs

/-! ## The machine and the pass -/

namespace Conventional

open Machine (Pending)

/-- A state of the machine and one of the pass go together, after some tokens.  In the first
factor of a product both have counted the same minuses.  After it the machine holds the
magnitude of what the pass holds. -/
inductive Mirrors : List Token → Machine.State → State → Prop where
  | first {read : List Token} (sum : Option Pending) {count : Nat} (hexpects : ExpectsOperand read)
      (hcount : count = openMinuses read) :
      Mirrors read (.operand sum (List.replicate count none) none) (.operand sum none count)
  | later {read : List Token} {last : Token} (sum : Option Pending) {count : Nat} {op : Operator}
      {magnitude value : Int64} (hlast : last ∈ read.getLast?) (hkind : last.kind = op.kind)
      (hlevel : op.level = .product) (hsigned : Signed count magnitude value) :
      Mirrors read (.operand sum (List.replicate count none) (some ⟨magnitude, op⟩))
        (.operand sum (some ⟨value, op⟩) 0)
  | operator {read : List Token} (sum : Option Pending) {count : Nat} {magnitude value : Int64}
      (hnumber : FollowsNumber read) (hsigned : Signed count magnitude value) :
      Mirrors read (.operator sum (List.replicate count none) magnitude) (.operator sum value)

section Steps

variable {read others : List Token} {token : Token} {position : Nat} {sum : Option Pending}
  {count : Nat} {op : Operator} {magnitude value : Int64} {below : List (Option Pending)}
  {top product : Option Pending} {minuses : Nat}

/-- Both sides carry out the operation in front of a value, with the same result. -/
theorem combine_tallies (left : Option Pending) (rhs : Int64) :
    Tallies Eq (Machine.combine left rhs) (combine? left rhs) := by
  cases left with
  | none => exact .both rfl
  | some pending =>
      rw [Machine.combine, combine?]
      cases pending.op.apply pending.lhs rhs with
      | ok result => exact .both rfl
      | error error => exact .neither _

/-- A number is read alike if it then is combined alike. -/
theorem number_tallies (hspelled : token.Spelled) (hkind : token.kind = .number)
    (hcombine : ∀ literal : Int64, 0 ≤ literal.toInt →
      Tallies (Signed count) (Machine.combine top literal)
        ((negateTimes? minuses literal).bind (combine? product))) :
    Tallies (Mirrors (read ++ [token]))
      (Machine.stepOperand (some 256) sum (List.replicate count none) top position token)
      (step? (.operand sum product minuses) token) := by
  rw [Machine.stepOperand_number hkind, step?_number hkind, Machine.literal]
  cases hread : Numeral.read token.text with
  | error fault => cases fault <;> exact .neither _
  | ok literal =>
      have hliteral := (Numeral.read_eq_ok_iff_of_isNumeral (hspelled.isNumeral hkind)).mp hread
      show Tallies _ (Machine.combine top literal >>= _)
        (Option.map _ ((negateTimes? minuses literal).bind (combine? product)))
      rw [Option.map_eq_bind]
      refine (hcombine literal (by omega)).bind fun magnitude value hsigned => ?_
      exact .both (.operator sum (followsNumber_concat.mpr hkind) hsigned)

/-- No token but a minus or a number is read in the place of an operand. -/
theorem misplaced_tallies {agree : Machine.State → State → Prop} (hminus : token.kind ≠ .minus)
    (hnumber : token.kind ≠ .number) :
    Tallies agree (Machine.stepOperand (some 256) sum below top position token)
      (step? (.operand sum product minuses) token) := by
  rw [Machine.stepOperand_misplaced hminus hnumber, step?_misplaced hminus hnumber]
  exact .neither _

/-- A token in the place of the first factor of a product. -/
theorem first_tallies (hexpects : ExpectsOperand read) (hcount : count = openMinuses read)
    (hlead : MinusesLead 256 (read ++ token :: others)) (hspelled : token.Spelled) :
    Tallies (Mirrors (read ++ [token]))
      (Machine.stepOperand (some 256) sum (List.replicate count none) none position token)
      (step? (.operand sum none count) token) := by
  by_cases hminus : token.kind = .minus
  · have hroom : (some 256).all ((List.replicate count (none : Option Pending)).length < ·) =
        true := by
      have hlt := hlead.openMinuses_lt ⟨hminus, hexpects⟩
      simpa [hcount] using hlt
    have hexpects' : ExpectsOperand (read ++ [token]) :=
      expectsOperand_concat.mpr (.inr (.inl hminus))
    have hcount' : count + 1 = openMinuses (read ++ [token]) := by
      rw [openMinuses_concat_unary ⟨hminus, hexpects⟩, hcount]
    rw [Machine.stepOperand_minus hminus hroom, step?_minus hminus]
    exact .both (.first sum hexpects' hcount')
  · by_cases hnumber : token.kind = .number
    · apply number_tallies hspelled hnumber
      intro literal hnonneg
      rcases exists_signed count hnonneg with ⟨value, hvalue, hsigned⟩
      rw [hvalue]
      exact .both hsigned
    · exact misplaced_tallies hminus hnumber

/-- A token in the place of a further factor of a product. -/
theorem later_tallies {last : Token} (hlast : last ∈ read.getLast?) (hkind : last.kind = op.kind)
    (hlevel : op.level = .product) (hsigned : Signed count magnitude value)
    (hlead : MinusesLead 256 (read ++ token :: others)) (hspelled : token.Spelled) :
    Tallies (Mirrors (read ++ [token]))
      (Machine.stepOperand (some 256) sum (List.replicate count none) (some ⟨magnitude, op⟩)
        position token)
      (step? (.operand sum (some ⟨value, op⟩) 0) token) := by
  by_cases hminus : token.kind = .minus
  · have hexpects : ExpectsOperand read := by
      intro last' hlast'
      obtain rfl : last = last' := Option.some.inj (hlast.symm.trans hlast')
      rw [hkind]
      exact op.kind_awaitsOperand
    -- the token in front of the minus would be both an operation of products and a sign
    have hsign := hlead.kind_of_getLast? ⟨hminus, hexpects⟩ hlast
    rw [hkind] at hsign
    cases op <;> simp [Operator.kind, Operator.level] at hsign hlevel
  · by_cases hnumber : token.kind = .number
    · apply number_tallies hspelled hnumber
      intro literal hnonneg
      exact apply_tallies hlevel hsigned hnonneg
    · exact misplaced_tallies hminus hnumber

/-- A sign between two terms adds the same product to the same sum. -/
theorem sign_tallies (hnumber : FollowsNumber read) (hsigned : Signed count magnitude value)
    (hkind : token.kind = op.kind) (hlevel : op.level = .sum) :
    Tallies (Mirrors (read ++ [token]))
      (Machine.stepOperator sum (List.replicate count none) magnitude position token)
      (step? (.operator sum value) token) := by
  have hstep : Machine.stepOperator sum (List.replicate count none) magnitude position token =
      (Machine.combine sum value >>= fun total => .ok (.operand (some ⟨total, op⟩) [] none)) := by
    rw [← hsigned.settle_replicate]
    cases op with
    | add => simp only [Machine.stepOperator, hkind, Operator.kind]; rfl
    | sub => simp only [Machine.stepOperator, hkind, Operator.kind]; rfl
    | mul => cases hlevel
    | div => cases hlevel
  have hsign : IsBinarySign read token := by
    cases op with
    | add => exact .inl hkind
    | sub => exact .inr ⟨hkind, hnumber⟩
    | mul => cases hlevel
    | div => cases hlevel
  have hexpects : ExpectsOperand (read ++ [token]) := by
    rw [expectsOperand_concat, hkind]
    exact op.kind_awaitsOperand
  rw [hstep, step?_sum hkind hlevel, Option.map_eq_bind]
  refine (combine_tallies sum value).bind fun total total' htotal => ?_
  rw [← htotal]
  exact .both (.first (some ⟨total, op⟩) hexpects (openMinuses_concat_sign hsign).symm)

/-- An operation of a product waits with what there is of the product. -/
theorem product_tallies (hsigned : Signed count magnitude value) (hkind : token.kind = op.kind)
    (hlevel : op.level = .product) :
    Tallies (Mirrors (read ++ [token]))
      (Machine.stepOperator sum (List.replicate count none) magnitude position token)
      (step? (.operator sum value) token) := by
  have hfollow := Level.follow_eq_operator_iff.mpr ⟨hkind, hlevel⟩
  rw [Machine.stepOperator_product hfollow, step?_product hkind hlevel]
  exact .both (.later sum (by simp) hkind hlevel hsigned)

/-- The machine and the pass come out even on each token. -/
theorem step_tallies {state : Machine.State} {other : State} (hmirrors : Mirrors read state other)
    (hlead : MinusesLead 256 (read ++ token :: others)) (hspelled : token.Spelled) :
    Tallies (Mirrors (read ++ [token])) (Machine.step (some 256) state position token)
      (step? other token) := by
  cases hmirrors with
  | first sum hexpects hcount => exact first_tallies hexpects hcount hlead hspelled
  | later sum hlast hkind hlevel hsigned =>
      exact later_tallies hlast hkind hlevel hsigned hlead hspelled
  | operator sum hnumber hsigned =>
      rw [Machine.step]
      rcases hspelled with ⟨hkind, -⟩ | ⟨op, rfl⟩
      · have hfollow : Level.product.follow token.kind = .refuse := by rw [hkind]; rfl
        rw [Machine.stepOperator_refuse hfollow, step?_number_operator hkind]
        exact .neither _
      · cases hlevel : op.level with
        | sum => exact sign_tallies hnumber hsigned rfl hlevel
        | product => exact product_tallies hsigned rfl hlevel

end Steps

/-- The machine on tokens and the closing marker comes out even with the pass on the tokens.
The induction is on the tokens to be read, behind others that are read already and say where
the next one stands. -/
theorem run_tallies {read tokens : List Token} {state : Machine.State} {other : State}
    {position : Nat} (hmirrors : Mirrors read state other)
    (hlead : MinusesLead 256 (read ++ tokens)) (hspelled : ∀ token ∈ tokens, token.Spelled) :
    Tallies Eq (Machine.run (some 256) state position (tokens ++ [Token.endOfInput]))
      ((tokens.foldlM step? other).bind State.value?) := by
  induction tokens generalizing read state other position with
  | nil =>
      rw [List.nil_append]
      cases hmirrors with
      | first sum hexpects hcount => exact .neither _
      | later sum hlast hkind hlevel hsigned => exact .neither _
      | operator sum hnumber hsigned =>
          rw [Machine.run_operator_end, hsigned.settle_replicate]
          exact combine_tallies sum _
  | cons token others ih =>
      rw [List.cons_append, Machine.run_cons, List.foldlM_cons]
      show Tallies Eq _ (((step? other token).bind _).bind _)
      rw [Option.bind_assoc]
      have hstep : Tallies (Mirrors (read ++ [token]))
          (Machine.step (some 256) state (position + 1) token) (step? other token) :=
        step_tallies hmirrors hlead (hspelled token (by simp))
      refine hstep.bind fun next next' hnext => ?_
      apply ih hnext
      · rwa [List.append_assoc]
      · exact fun token' hmem => hspelled token' (by simp [hmem])

/-- An evaluation comes out even with the pass, if there is anything to evaluate. -/
theorem evaluate_tallies {tokens : List Token} (hne : tokens ≠ [])
    (hlead : MinusesLead 256 tokens) (hspelled : ∀ token ∈ tokens, token.Spelled) :
    Tallies Eq (Machine.evaluate (some 256) (tokens ++ [Token.endOfInput])) (value? tokens) := by
  have hstart : Machine.evaluate (some 256) (tokens ++ [Token.endOfInput]) =
      Machine.run (some 256) (.operand none (List.replicate 0 none) none) 0
        (tokens ++ [Token.endOfInput]) := by
    rcases List.exists_cons_of_ne_nil hne with ⟨token, others, rfl⟩
    have hkind := (hspelled token (by simp)).kind_ne_endOfInput
    rw [Machine.evaluate, List.cons_append, Machine.run_cons, Machine.run_cons, Machine.step,
      if_neg hkind]
    rfl
  rw [hstart]
  exact run_tallies (.first none expectsOperand_nil openMinuses_nil.symm) hlead hspelled

end Conventional

/-! ## Sources -/

/-- A source has a value by conventional precedence: its characters are all in the alphabet, and
it is blank and the value is zero, or its pieces have the value. -/
def HasConventionalValue (source : String) (value : Int64) : Prop :=
  (∀ c ∈ source.toList, InAlphabet c) ∧
    (pieces source = [] ∧ value = 0 ∨ ConventionalValue (.chain .sum) (pieces source) value)

/-- What an evaluation comes out even with is the conventional value. -/
theorem exists_tallies {source : String} (hlead : MinusesLead 256 (pieces source)) :
    ∃ other : Option Int64, Tallies Eq (evaluate source) other ∧
      ∀ value, other = some value ↔ HasConventionalValue source value := by
  by_cases hall : ∀ c ∈ source.toList, InAlphabet c
  · by_cases hblank : pieces source = []
    · have hzero : evaluate source = .ok 0 := by
        rw [evaluate_eq_of_inAlphabet hall, hblank]
        rfl
      refine ⟨some 0, by rw [hzero]; exact .both rfl, fun value => ?_⟩
      rw [HasConventionalValue, and_iff_right hall, hblank, ← Conventional.value?_eq_some_iff]
      show some 0 = some value ↔ [] = [] ∧ value = 0 ∨ none = some value
      simp [eq_comm]
    · have hspelled : ∀ piece ∈ pieces source, piece.Spelled :=
        fun piece hpiece => Token.spelled_of_mem_piecesOf hall hpiece
      refine ⟨Conventional.value? (pieces source), ?_, fun value => ?_⟩
      · rw [evaluate_eq_of_inAlphabet hall]
        exact Conventional.evaluate_tallies hblank hlead hspelled
      · rw [HasConventionalValue, and_iff_right hall, Conventional.value?_eq_some_iff]
        exact (or_iff_right fun hboth => hblank hboth.1).symm
  · rcases exists_tokenize_eq_error hall with ⟨c, i, herror⟩
    refine ⟨none, ?_, fun value => iff_of_false (by simp) fun hvalue => hall hvalue.1⟩
    rw [evaluate_eq, herror]
    exact .neither _

/-- On a source in which minuses in the place of an operand only stand at the start of terms,
not more than 256 in a row, every value is also the conventional value, and a conventional value
is missed only where a product overflows to exactly `2 ^ 63`. -/
theorem evaluate_conventional (source : String) (hlead : MinusesLead 256 (pieces source)) :
    (∀ value, evaluate source = .ok value → HasConventionalValue source value) ∧
    (∀ value, HasConventionalValue source value → evaluate source = .ok value ∨
      ∃ lhs rhs, evaluate source = .error (.arithmetic (.overflow lhs '*' rhs)) ∧
        lhs.toInt * rhs.toInt = 2 ^ 63) := by
  rcases exists_tallies hlead with ⟨other, htallies, hother⟩
  simp only [← hother]
  generalize evaluate source = outcome at htallies
  cases htallies with
  | @both result result' hagree =>
      refine ⟨fun value hvalue => ?_, fun value hvalue => .inl ?_⟩
      · rw [← hagree]
        exact congrArg some (Except.ok.inj hvalue)
      · rw [hagree]
        exact congrArg Except.ok (Option.some.inj hvalue)
  | neither cause => exact ⟨nofun, nofun⟩
  | @boundary lhs rhs hproduct => exact ⟨nofun, fun _ _ => .inr ⟨lhs, rhs, rfl, hproduct⟩⟩

/-- A product that is negated in the end or in the beginning; and a product of which the language
calculates the magnitude `2 ^ 63`, where the convention comes to the least value and goes on. -/
theorem evaluate_conventional_at_least_value :
    (MinusesLead 256 (pieces "7--2*3/4") ∧ evaluate "7--2*3/4" = .ok 8 ∧
        HasConventionalValue "7--2*3/4" 8) ∧
      (MinusesLead 256 (pieces "-4611686018427387904*2/2") ∧
        HasConventionalValue "-4611686018427387904*2/2" (-4611686018427387904) ∧
        ∃ lhs rhs, evaluate "-4611686018427387904*2/2" =
          .error (.arithmetic (.overflow lhs '*' rhs)) ∧ lhs.toInt * rhs.toInt = 2 ^ 63) := by
  have hlead : MinusesLead 256 (pieces "7--2*3/4") := by decide
  have height : evaluate "7--2*3/4" = .ok 8 :=
    (evaluate_eq_of_inAlphabet (by simp [InAlphabet])).trans rfl
  have hlead' : MinusesLead 256 (pieces "-4611686018427387904*2/2") := by decide
  have hvalue : HasConventionalValue "-4611686018427387904*2/2" (-4611686018427387904) :=
    ⟨by simp [InAlphabet], .inr (Conventional.value?_eq_some_iff.mp rfl)⟩
  have hfailed : ∃ cause, evaluate "-4611686018427387904*2/2" = .error cause :=
    ⟨_, (evaluate_eq_of_inAlphabet (by simp [InAlphabet])).trans rfl⟩
  refine ⟨⟨hlead, height, (evaluate_conventional _ hlead).1 8 height⟩, hlead', hvalue, ?_⟩
  rcases (evaluate_conventional _ hlead').2 _ hvalue with hok | hboundary
  · rcases hfailed with ⟨cause, herror⟩
    rw [herror] at hok
    cases hok
  · exact hboundary

end Calculator
