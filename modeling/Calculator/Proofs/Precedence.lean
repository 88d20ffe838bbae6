import Calculator.Proofs.Machine
import Calculator.Proofs.Tree

/-!
# Conventional precedence

In the language a minus in front of a factor negates the whole rest of its product.  By the
usual convention a minus binds more tightly than any other operation, and negates nothing but
the factor.  Products and sums are calculated from the left in both cases, and each step is
checked in both cases.

The conventional value of some tokens is given by a grammar, which differs from that of the
language in the rule for a negation only.  It is found in one pass, in which the minuses in
front of a factor are counted until the factor is read.

Main results:

- Theorem `Conventional.value?_eq_some_iff`: the pass finds exactly the conventional value.
- Theorem `ConventionalValue.unique`: no tokens have two conventional values.
-/

namespace Calculator

/-- The tokens of a part have a value by conventional precedence: a minus in front of an
operand negates the operand alone, then products are calculated from the left, and then sums
are.  The literals, the negations and the operations are all checked. -/
inductive ConventionalValue : Part → List Token → Int64 → Prop where
  | number {token : Token} {value : Int64} (hkind : token.kind = .number)
      (hread : Numeral.read token.text = .ok value) :
      ConventionalValue .unary [token] value
  | negation {token : Token} {tokens : List Token} {operand value : Int64}
      (hkind : token.kind = .minus) (hoperand : ConventionalValue .unary tokens operand)
      (hnegate : negate operand = .ok value) :
      ConventionalValue .unary (token :: tokens) value
  | first {level : Level} {tokens : List Token} {value : Int64}
      (hoperand : ConventionalValue level.operand tokens value) :
      ConventionalValue (.chain level) tokens value
  | more {level : Level} {op : Operator} {token : Token} {tokens tokens' : List Token}
      {lhs rhs value : Int64} (hchain : ConventionalValue (.chain level) tokens lhs)
      (hlevel : op.level = level) (hkind : token.kind = op.kind)
      (hoperand : ConventionalValue level.operand tokens' rhs)
      (happly : op.apply lhs rhs = .ok value) :
      ConventionalValue (.chain level) (tokens ++ token :: tokens') value

namespace Conventional

open Machine (Pending)

/-! ## One pass over the tokens -/

/-- What is remembered between two tokens: the pending sum and, in front of an operand, the
pending product and the number of minuses read since. -/
inductive State where
  | operand (sum product : Option Pending) (minuses : Nat)
  | operator (sum : Option Pending) (value : Int64)

/-- Negate a value a number of times. -/
def negateTimes? : Nat → Int64 → Option Int64
  | 0, value => some value
  | count + 1, value => (negate value).toOption.bind (negateTimes? count)

/-- Combine a value with the operand that waits for it, if one does. -/
def combine? (left : Option Pending) (rhs : Int64) : Option Int64 :=
  match left with
  | none => some rhs
  | some pending => (pending.op.apply pending.lhs rhs).toOption

/-- Read a token. -/
def step? : State → Token → Option State
  | .operand sum product minuses, token =>
      match token.kind with
      | .minus => some (.operand sum product (minuses + 1))
      | .number =>
          (((Numeral.read token.text).toOption.bind (negateTimes? minuses)).bind
            (combine? product)).map (.operator sum)
      | _ => none
  | .operator sum value, token =>
      match Level.product.follow token.kind, Level.sum.follow token.kind with
      | .operator op, _ => some (.operand sum (some ⟨value, op⟩) 0)
      | .stop, .operator op =>
          (combine? sum value).map fun total => .operand (some ⟨total, op⟩) none 0
      | _, _ => none

/-- The value of an expression of which all tokens were read. -/
def State.value? : State → Option Int64
  | operand _ _ _ => none
  | operator sum value => combine? sum value

/-- The value of tokens, found in one pass. -/
def value? (tokens : List Token) : Option Int64 :=
  (tokens.foldlM step? (.operand none none 0)).bind State.value?

theorem toOption_eq_some_iff {error α : Type} {result : Except error α} {value : α} :
    result.toOption = some value ↔ result = .ok value := by
  cases result <;> simp [Except.toOption]

section Step

variable {sum product : Option Pending} {minuses : Nat} {value : Int64} {token : Token}
  {op : Operator}

/-- A minus in the place of an operand is counted. -/
theorem step?_minus (hkind : token.kind = .minus) :
    step? (.operand sum product minuses) token = some (.operand sum product (minuses + 1)) := by
  simp only [step?, hkind]

/-- A number is negated once for each minus in front of it, and taken into its product. -/
theorem step?_number (hkind : token.kind = .number) :
    step? (.operand sum product minuses) token =
      (((Numeral.read token.text).toOption.bind (negateTimes? minuses)).bind
        (combine? product)).map (.operator sum) := by
  simp only [step?, hkind]

/-- No other token has a place there. -/
theorem step?_misplaced (hminus : token.kind ≠ .minus) (hnumber : token.kind ≠ .number) :
    step? (.operand sum product minuses) token = none := by
  cases hkind : token.kind with
  | minus => exact absurd hkind hminus
  | number => exact absurd hkind hnumber
  | _ => simp only [step?, hkind]

/-- Behind an operand, an operator of a product waits with the product so far. -/
theorem step?_product (hkind : token.kind = op.kind) (hlevel : op.level = .product) :
    step? (.operator sum value) token = some (.operand sum (some ⟨value, op⟩) 0) := by
  have hfollow := Level.follow_eq_operator_iff.mpr ⟨hkind, hlevel⟩
  simp only [step?, hfollow]

/-- A sign closes the product and waits with the sum so far. -/
theorem step?_sum (hkind : token.kind = op.kind) (hlevel : op.level = .sum) :
    step? (.operator sum value) token =
      (combine? sum value).map fun total => .operand (some ⟨total, op⟩) none 0 := by
  have hfollow := Level.follow_eq_operator_iff.mpr ⟨hkind, hlevel⟩
  have hstop := Operator.follow_product_of_level_sum hlevel
  rw [← hkind] at hstop
  simp only [step?, hfollow, hstop]

/-- A number has no place behind an operand. -/
theorem step?_number_operator (hkind : token.kind = .number) :
    step? (.operator sum value) token = none := by
  simp only [step?, hkind, Level.follow]

end Step

/-! ## From values to the pass -/

/-- What the pass makes of the tokens of a part. -/
def Passes : Part → List Token → Int64 → Prop
  | .unary, tokens, value => ∀ sum product minuses,
      tokens.foldlM step? (.operand sum product minuses) =
        ((negateTimes? minuses value).bind (combine? product)).map (.operator sum)
  | .chain .product, tokens, value => ∀ sum,
      tokens.foldlM step? (.operand sum none 0) = some (.operator sum value)
  | .chain .sum, tokens, value => value? tokens = some value

/-- The pass over tokens goes on from the state that those in front lead to. -/
theorem foldlM_append_cons {tokens tokens' : List Token} {token : Token} {state next : State}
    (htokens : tokens.foldlM step? state = some next) :
    (tokens ++ token :: tokens').foldlM step? state =
      (step? next token).bind (tokens'.foldlM step?) := by
  rw [List.foldlM_append, htokens]
  rfl

/-- The pass computes the conventional value of each part. -/
theorem passes_of_conventionalValue {part : Part} {tokens : List Token} {value : Int64}
    (hvalue : ConventionalValue part tokens value) : Passes part tokens value := by
  induction hvalue with
  | @number token value hkind hread =>
      intro sum product minuses
      rw [List.foldlM_cons, step?_number hkind, hread]
      simp [Except.toOption]
  | @negation token tokens operand value hkind _ hnegate ih =>
      intro sum product minuses
      rw [List.foldlM_cons, step?_minus hkind]
      show tokens.foldlM step? (.operand sum product (minuses + 1)) = _
      rw [ih, negateTimes?, hnegate]
      rfl
  | @first level tokens value _ ih =>
      cases level with
      | sum =>
          show (tokens.foldlM step? (.operand none none 0)).bind State.value? = some value
          rw [ih none]
          rfl
      | product => exact fun sum => ih sum none 0
  | @more level op token tokens tokens' lhs rhs value _ hlevel hkind _ happly ihChain ihOperand =>
      cases level with
      | sum =>
          rcases Option.bind_eq_some_iff.mp ihChain with ⟨next, htokens, hnext⟩
          cases next with
          | operand sum product minuses => cases hnext
          | operator sum term =>
              show ((tokens ++ token :: tokens').foldlM step? _).bind State.value? = some value
              rw [foldlM_append_cons htokens, step?_sum hkind hlevel,
                show combine? sum term = some lhs from hnext]
              show (tokens'.foldlM step? (.operand (some ⟨lhs, op⟩) none 0)).bind _ = _
              rw [ihOperand (some ⟨lhs, op⟩)]
              show (op.apply lhs rhs).toOption = some value
              rw [happly]
              rfl
      | product =>
          intro sum
          rw [foldlM_append_cons (ihChain sum), step?_product hkind hlevel]
          show tokens'.foldlM step? (.operand sum (some ⟨lhs, op⟩) 0) = _
          rw [ihOperand sum (some ⟨lhs, op⟩) 0]
          show ((op.apply lhs rhs).toOption).map _ = _
          rw [happly]
          rfl

/-! ## From the pass to values -/

/-- The tokens in front of an operand of a level, with the value that waits for it. -/
def Waits (level : Level) : Option Pending → List Token → Prop
  | none, tokens => tokens = []
  | some pending, tokens => ∃ chain token, tokens = chain ++ [token] ∧
      pending.op.level = level ∧ token.kind = pending.op.kind ∧
        ConventionalValue (.chain level) chain pending.lhs

/-- What a state says about the tokens read. -/
def State.Holds : State → List Token → Prop
  | operand sum product minuses, read => ∃ terms factors signs,
      read = terms ++ (factors ++ signs) ∧ Waits .sum sum terms ∧ Waits .product product factors ∧
        signs.length = minuses ∧ ∀ sign ∈ signs, sign.kind = .minus
  | operator sum value, read => ∃ terms term,
      read = terms ++ term ∧ Waits .sum sum terms ∧ ConventionalValue (.chain .product) term value

variable {level : Level} {tokens : List Token} {value : Int64}

/-- An operand behind what waits for it completes a chain. -/
theorem Waits.conventionalValue {left : Option Pending} {front : List Token} {rhs : Int64}
    (hwaits : Waits level left front) (hoperand : ConventionalValue level.operand tokens rhs)
    (hcombine : combine? left rhs = some value) :
    ConventionalValue (.chain level) (front ++ tokens) value := by
  cases left with
  | none =>
      obtain rfl : front = [] := hwaits
      cases hcombine
      exact .first hoperand
  | some pending =>
      rcases hwaits with ⟨chain, token, rfl, hlevel, hkind, hchain⟩
      rw [List.append_assoc]
      exact .more hchain hlevel hkind hoperand (toOption_eq_some_iff.mp hcombine)

/-- Minuses in front of an operand negate it as many times. -/
theorem conventionalValue_append {signs : List Token} {inner : Int64}
    (hsigns : ∀ sign ∈ signs, sign.kind = .minus)
    (hinner : ConventionalValue .unary tokens inner)
    (hnegate : negateTimes? signs.length inner = some value) :
    ConventionalValue .unary (signs ++ tokens) value := by
  induction signs using List.reverseRecOn generalizing tokens inner with
  | nil =>
      cases hnegate
      exact hinner
  | append_singleton signs sign ih =>
      rw [List.length_append, List.length_singleton, negateTimes?, Option.bind_eq_some_iff]
        at hnegate
      rcases hnegate with ⟨negated, hnegated, hnegate⟩
      have hnegation : ConventionalValue .unary (sign :: tokens) negated :=
        .negation (hsigns sign (by simp)) hinner (toOption_eq_some_iff.mp hnegated)
      rw [List.append_assoc]
      exact ih (fun sign' hmem => hsigns sign' (by simp [hmem])) hnegation hnegate

variable {state next last : State} {read : List Token} {token : Token}

/-- A step keeps what is known of the tokens behind it. -/
theorem State.Holds.of_step? (hholds : state.Holds read) (hstep : step? state token = some next) :
    next.Holds (read ++ [token]) := by
  cases state with
  | operand sum product minuses =>
      rcases hholds with ⟨terms, factors, signs, rfl, hterms, hfactors, rfl, hsigns⟩
      by_cases hminus : token.kind = .minus
      · rw [step?_minus hminus] at hstep
        cases hstep
        refine ⟨terms, factors, signs ++ [token], by simp, hterms, hfactors, by simp, ?_⟩
        intro sign hmem
        rcases List.mem_append.mp hmem with hmem | hmem
        · exact hsigns sign hmem
        · rwa [List.mem_singleton.mp hmem]
      · by_cases hnumber : token.kind = .number
        · rw [step?_number hnumber, Option.map_eq_some_iff] at hstep
          rcases hstep with ⟨value, hvalue, rfl⟩
          rcases Option.bind_eq_some_iff.mp hvalue with ⟨factor, hfactor, hcombine⟩
          rcases Option.bind_eq_some_iff.mp hfactor with ⟨literal, hliteral, hnegate⟩
          have hread := ConventionalValue.number hnumber (toOption_eq_some_iff.mp hliteral)
          have hsigned := conventionalValue_append hsigns hread hnegate
          exact ⟨terms, factors ++ (signs ++ [token]), by simp, hterms,
            hfactors.conventionalValue hsigned hcombine⟩
        · rw [step?_misplaced hminus hnumber] at hstep
          cases hstep
  | operator sum value =>
      rcases hholds with ⟨terms, term, rfl, hterms, hterm⟩
      rw [step?] at hstep
      split at hstep
      next op hproduct =>
        rcases Level.follow_eq_operator_iff.mp hproduct with ⟨hkind, hlevel⟩
        cases hstep
        exact ⟨terms, term ++ [token], [], by simp, hterms,
          ⟨term, token, rfl, hlevel, hkind, hterm⟩, rfl, by simp⟩
      next op _ hsum =>
        rcases Level.follow_eq_operator_iff.mp hsum with ⟨hkind, hlevel⟩
        rcases Option.map_eq_some_iff.mp hstep with ⟨total, hcombine, rfl⟩
        have htotal := hterms.conventionalValue hterm hcombine
        exact ⟨terms ++ term ++ [token], [], [], by simp, ⟨_, token, rfl, hlevel, hkind, htotal⟩,
          rfl, rfl, by simp⟩
      next => cases hstep

/-- So does the pass over any tokens. -/
theorem State.Holds.of_foldlM (hholds : state.Holds read)
    (hfold : tokens.foldlM step? state = some last) : last.Holds (read ++ tokens) := by
  induction tokens generalizing state read with
  | nil =>
      cases hfold
      rwa [List.append_nil]
  | cons token others ih =>
      rw [List.foldlM_cons] at hfold
      rcases Option.bind_eq_some_iff.mp hfold with ⟨next, hstep, hfold⟩
      have hlast := ih (hholds.of_step? hstep) hfold
      rwa [List.append_assoc] at hlast

/-- The pass finds exactly the conventional value. -/
theorem value?_eq_some_iff :
    value? tokens = some value ↔ ConventionalValue (.chain .sum) tokens value := by
  constructor
  · intro hvalue
    rcases Option.bind_eq_some_iff.mp hvalue with ⟨last, hlast, hvalue⟩
    have hstart : (State.operand none none 0).Holds [] := ⟨[], [], [], rfl, rfl, rfl, rfl, by simp⟩
    have hholds := hstart.of_foldlM hlast
    cases last with
    | operand sum product minuses => cases hvalue
    | operator sum latest =>
        rcases hholds with ⟨terms, term, htokens, hterms, hterm⟩
        have hsum := hterms.conventionalValue hterm hvalue
        rwa [← htokens] at hsum
  · exact passes_of_conventionalValue

end Conventional

/-- No tokens have two conventional values. -/
theorem ConventionalValue.unique {tokens : List Token} {value value' : Int64}
    (hvalue : ConventionalValue (.chain .sum) tokens value)
    (hvalue' : ConventionalValue (.chain .sum) tokens value') : value = value' := by
  rw [← Conventional.value?_eq_some_iff] at hvalue hvalue'
  rw [hvalue] at hvalue'
  exact Option.some.inj hvalue'

end Calculator
