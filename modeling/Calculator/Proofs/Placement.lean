import Calculator.Token

/-!
# Places of tokens

What may stand at a place of a token sequence is decided by the token in front of it.
An operand is expected at the front and after an operator, and a minus is a negation
where it stands in the place of an operand.  A sign after a number ends a term of the
sum, and with it all negations of the term.

Main results:

- Theorems `countSince_concat_reset` and `countSince_concat`: how a count of tokens goes on
  with one more token.
- Theorems `openMinuses_concat_sign` and `openMinuses_concat`: the negations open after
  one more token.
-/

namespace Calculator

/-! ## What is expected after the tokens read -/

/-- A token of the kind is followed by an operand. -/
def Token.Kind.AwaitsOperand (kind : Token.Kind) : Prop :=
  kind = .plus ∨ kind = .minus ∨ kind = .star ∨ kind = .slash

/-- An operand is expected after the tokens read: they are none, or the last of them is
an operator. -/
def ExpectsOperand (read : List Token) : Prop :=
  ∀ token ∈ read.getLast?, token.kind.AwaitsOperand

/-- The last token read is a number. -/
def FollowsNumber (read : List Token) : Prop :=
  ∃ token ∈ read.getLast?, token.kind = .number

/-- A token of the kind is not permitted after the tokens read.  In the place of an
operand these are the operators other than a minus, and the closing marker unless it
stands in front of everything.  After a number it is another number. -/
def OutOfPlace (read : List Token) (kind : Token.Kind) : Prop :=
  (ExpectsOperand read ∧
      (kind = .plus ∨ kind = .star ∨ kind = .slash ∨ kind = .endOfInput ∧ read ≠ [])) ∨
    (FollowsNumber read ∧ kind = .number)

/-- A minus that stands in the place of an operand. -/
def IsUnaryMinus (read : List Token) (token : Token) : Prop :=
  token.kind = .minus ∧ ExpectsOperand read

/-- A sign between two terms of a sum: a plus, or a minus right after a number. -/
def IsBinarySign (read : List Token) (token : Token) : Prop :=
  token.kind = .plus ∨ token.kind = .minus ∧ FollowsNumber read

instance (kind : Token.Kind) : Decidable kind.AwaitsOperand :=
  inferInstanceAs (Decidable (_ ∨ _))

instance (read : List Token) : Decidable (ExpectsOperand read) :=
  inferInstanceAs (Decidable (∀ token ∈ read.getLast?, token.kind.AwaitsOperand))

instance (read : List Token) : Decidable (FollowsNumber read) :=
  inferInstanceAs (Decidable (∃ token ∈ read.getLast?, token.kind = .number))

instance (read : List Token) (token : Token) : Decidable (IsUnaryMinus read token) :=
  inferInstanceAs (Decidable (_ ∧ _))

instance (read : List Token) (token : Token) : Decidable (IsBinarySign read token) :=
  inferInstanceAs (Decidable (_ ∨ _))

theorem expectsOperand_nil : ExpectsOperand [] := by
  simp [ExpectsOperand]

/-- Behind a token it is the kind that decides whether an operand is expected. -/
theorem expectsOperand_concat {read : List Token} {token : Token} :
    ExpectsOperand (read ++ [token]) ↔ token.kind.AwaitsOperand := by
  simp [ExpectsOperand]

/-- Tokens follow a number if the last of them is one. -/
theorem followsNumber_concat {read : List Token} {token : Token} :
    FollowsNumber (read ++ [token]) ↔ token.kind = .number := by
  simp [FollowsNumber]

/-- After a number no operand is expected. -/
theorem FollowsNumber.not_expectsOperand {read : List Token} (hnumber : FollowsNumber read) :
    ¬ ExpectsOperand read := by
  rcases hnumber with ⟨token, hlast, hkind⟩
  intro hexpects
  have hawaits := hexpects token hlast
  rw [hkind] at hawaits
  simp [Token.Kind.AwaitsOperand] at hawaits

/-! ## Counting since the last token of a sort -/

/-- The token at an index is of a sort, which what stands in front of it has a say in. -/
def TokenAt (sort : List Token → Token → Prop) (tokens : List Token) (i : Nat) : Prop :=
  ∃ token ∈ tokens[i]?, sort (tokens.take i) token

instance (sort : List Token → Token → Prop) [∀ read token, Decidable (sort read token)]
    (tokens : List Token) (i : Nat) : Decidable (TokenAt sort tokens i) :=
  inferInstanceAs (Decidable (∃ token ∈ tokens[i]?, sort (tokens.take i) token))

/-- The number of tokens of one sort since the last token of another, or since the front. -/
def countSince (counted reset : List Token → Token → Prop)
    [∀ read token, Decidable (counted read token)] [∀ read token, Decidable (reset read token)]
    (read : List Token) : Nat :=
  (List.range read.length).countP fun i =>
    TokenAt counted read i ∧ ∀ k < read.length, i < k → ¬ TokenAt reset read k

section CountSince

variable {sort counted reset : List Token → Token → Prop}
  [∀ read token, Decidable (counted read token)] [∀ read token, Decidable (reset read token)]
  {read others : List Token} {token : Token} {i : Nat}

/-- Which sort a token is of does not depend on the tokens behind it. -/
theorem tokenAt_append_of_lt (hi : i < read.length) :
    TokenAt sort (read ++ others) i ↔ TokenAt sort read i := by
  rw [TokenAt, TokenAt, List.getElem?_append_left hi,
    List.take_append_of_le_length (Nat.le_of_lt hi)]

/-- The tokens in front of a token decide which sort it is of. -/
theorem tokenAt_length : TokenAt sort (read ++ token :: others) read.length ↔ sort read token := by
  simp [TokenAt]

/-- After a token of the other sort the count starts again. -/
theorem countSince_concat_reset (hreset : reset read token) (hcounted : ¬ counted read token) :
    countSince counted reset (read ++ [token]) = 0 := by
  unfold countSince
  rw [List.countP_eq_zero]
  intro i hi hboth
  rcases of_decide_eq_true hboth with ⟨hthis, hnone⟩
  rw [List.mem_range, List.length_append, List.length_singleton] at hi
  by_cases hbefore : i < read.length
  · exact hnone read.length (by simp) hbefore (tokenAt_length.mpr hreset)
  · have hsame : i = read.length := by omega
    rw [hsame, tokenAt_length] at hthis
    exact hcounted hthis

/-- Any other token leaves the count, or adds one to it if it is of the sort counted. -/
theorem countSince_concat (hreset : ¬ reset read token) :
    countSince counted reset (read ++ [token]) =
      countSince counted reset read + if counted read token then 1 else 0 := by
  unfold countSince
  rw [List.length_append, List.length_singleton, List.range_succ, List.countP_append,
    List.countP_singleton]
  congr 1
  · apply List.countP_congr
    intro i hi
    rw [List.mem_range] at hi
    rw [decide_eq_true_iff, decide_eq_true_iff, tokenAt_append_of_lt hi]
    apply and_congr_right
    intro _
    constructor
    · intro hnone k hk hik hthat
      exact hnone k (by omega) hik ((tokenAt_append_of_lt hk).mpr hthat)
    · intro hnone k hk hik hthat
      by_cases hbefore : k < read.length
      · exact hnone k hbefore hik ((tokenAt_append_of_lt hbefore).mp hthat)
      · have hsame : k = read.length := by omega
        rw [hsame, tokenAt_length] at hthat
        exact hreset hthat
  · have hlast : (TokenAt counted (read ++ [token]) read.length ∧
        ∀ k < read.length + 1, read.length < k → ¬ TokenAt reset (read ++ [token]) k) ↔
        counted read token := by
      rw [tokenAt_length]
      exact and_iff_left fun k hk hik => by omega
    simp only [hlast, decide_eq_true_iff]

/-- A token of neither sort leaves the count. -/
theorem countSince_concat_of_not (hreset : ¬ reset read token)
    (hcounted : ¬ counted read token) :
    countSince counted reset (read ++ [token]) = countSince counted reset read := by
  rw [countSince_concat hreset, if_neg hcounted, Nat.add_zero]

/-- Behind a token of the other sort, no more is counted than stands there. -/
theorem countSince_le {start : Nat} (hstart : start ≤ read.length)
    (hfront : start = 0 ∨ TokenAt reset read (start - 1))
    (hapart : ∀ {front token}, reset front token → ¬ counted front token) :
    countSince counted reset read ≤ read.length - start := by
  have hsplit : List.range read.length =
      List.range start ++ (List.range (read.length - start)).map (start + ·) := by
    rw [← List.range_add, Nat.add_sub_cancel' hstart]
  have hnone : ∀ i ∈ List.range start, ¬ decide (TokenAt counted read i ∧
      ∀ k < read.length, i < k → ¬ TokenAt reset read k) = true := by
    intro i hi hboth
    rw [List.mem_range] at hi
    rcases of_decide_eq_true hboth with ⟨hthis, hlater⟩
    rcases hfront with rfl | hreset
    · omega
    · by_cases hsame : i = start - 1
      · rw [← hsame] at hreset
        rcases hreset with ⟨token, htoken, hsort⟩
        rcases hthis with ⟨token', htoken', hsort'⟩
        obtain rfl : token = token' := Option.some.inj (htoken.symm.trans htoken')
        exact hapart hsort hsort'
      · exact hlater (start - 1) (by omega) (by omega) hreset
  rw [countSince, hsplit, List.countP_append, List.countP_eq_zero.mpr hnone, Nat.zero_add]
  refine Nat.le_trans List.countP_le_length (Nat.le_of_eq ?_)
  rw [List.length_map, List.length_range]

end CountSince

/-! ## Negations open -/

/-- The token at an index is a minus in the place of an operand. -/
def UnaryMinusAt (tokens : List Token) (i : Nat) : Prop :=
  TokenAt IsUnaryMinus tokens i

/-- The token at an index is a sign between two terms. -/
def BinarySignAt (tokens : List Token) (i : Nat) : Prop :=
  TokenAt IsBinarySign tokens i

instance (tokens : List Token) (i : Nat) : Decidable (UnaryMinusAt tokens i) :=
  inferInstanceAs (Decidable (TokenAt IsUnaryMinus tokens i))

instance (tokens : List Token) (i : Nat) : Decidable (BinarySignAt tokens i) :=
  inferInstanceAs (Decidable (TokenAt IsBinarySign tokens i))

/-- The number of negations among the tokens read since the last sign between two terms,
or since the front. -/
def openMinuses (read : List Token) : Nat :=
  countSince IsUnaryMinus IsBinarySign read

section Concat

variable {read others : List Token} {token : Token} {i : Nat}

/-- Whether a minus is a negation does not depend on the tokens behind it. -/
theorem unaryMinusAt_append_of_lt (hi : i < read.length) :
    UnaryMinusAt (read ++ others) i ↔ UnaryMinusAt read i :=
  tokenAt_append_of_lt hi

theorem binarySignAt_append_of_lt (hi : i < read.length) :
    BinarySignAt (read ++ others) i ↔ BinarySignAt read i :=
  tokenAt_append_of_lt hi

/-- Whether a minus is a negation depends on the tokens in front of it. -/
theorem unaryMinusAt_length :
    UnaryMinusAt (read ++ token :: others) read.length ↔ IsUnaryMinus read token :=
  tokenAt_length

theorem binarySignAt_length :
    BinarySignAt (read ++ token :: others) read.length ↔ IsBinarySign read token :=
  tokenAt_length

end Concat

/-- A sign between two terms is not in the place of an operand. -/
theorem IsBinarySign.not_isUnaryMinus {read : List Token} {token : Token}
    (hsign : IsBinarySign read token) : ¬ IsUnaryMinus read token := by
  intro h
  rcases h with ⟨hminus, hexpects⟩
  rcases hsign with hplus | ⟨-, hnumber⟩
  · rw [hplus] at hminus
    cases hminus
  · exact hnumber.not_expectsOperand hexpects

@[simp]
theorem openMinuses_nil : openMinuses [] = 0 :=
  rfl

/-- A sign between two terms closes all negations. -/
theorem openMinuses_concat_sign {read : List Token} {token : Token}
    (hsign : IsBinarySign read token) : openMinuses (read ++ [token]) = 0 :=
  countSince_concat_reset hsign hsign.not_isUnaryMinus

/-- Any other token leaves the negations open, and a minus in the place of an operand
opens one more. -/
theorem openMinuses_concat {read : List Token} {token : Token}
    (hsign : ¬ IsBinarySign read token) :
    openMinuses (read ++ [token]) =
      openMinuses read + if IsUnaryMinus read token then 1 else 0 :=
  countSince_concat hsign

/-- A minus in the place of an operand opens one more negation. -/
theorem openMinuses_concat_unary {read : List Token} {token : Token}
    (hunary : IsUnaryMinus read token) :
    openMinuses (read ++ [token]) = openMinuses read + 1 := by
  rw [openMinuses_concat fun hsign => hsign.not_isUnaryMinus hunary, if_pos hunary]

/-- A token that is no sign leaves the negations open. -/
theorem openMinuses_concat_of_ne {read : List Token} {token : Token}
    (hplus : token.kind ≠ .plus) (hminus : token.kind ≠ .minus) :
    openMinuses (read ++ [token]) = openMinuses read := by
  have hsign : ¬ IsBinarySign read token := by
    intro h
    rcases h with hkind | ⟨hkind, -⟩
    · exact hplus hkind
    · exact hminus hkind
  rw [openMinuses_concat hsign, if_neg fun hunary => hminus hunary.1, Nat.add_zero]

/-! ## The closing marker -/

/-- The closing marker is not among the tokens. -/
def Unclosed (tokens : List Token) : Prop :=
  ∀ token ∈ tokens, token.kind ≠ .endOfInput

theorem unclosed_nil : Unclosed [] := by
  simp [Unclosed]

/-- The closing marker is not among the tokens if it is neither the last nor in front. -/
theorem unclosed_concat {read : List Token} {token : Token} :
    Unclosed (read ++ [token]) ↔ Unclosed read ∧ token.kind ≠ .endOfInput := by
  simp [Unclosed, or_imp, forall_and]

end Calculator
