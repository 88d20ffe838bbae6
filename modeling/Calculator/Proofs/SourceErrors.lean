import Calculator.Proofs.Source
import Calculator.Proofs.Stranger
import Calculator.Proofs.SyntaxErrors
import Mathlib.Algebra.Group.Nat.Defs

/-!
# The errors of a source

A failure of an evaluation concerns a certain token, the one at which it arose, and says
what is wrong with it.  The tokens of a source are its pieces and the closing marker, so not
every failure of a token sequence is one of a source: its numbers consist of digits, and its
closing marker is in the last place and nowhere else.

Main results:

- Theorem `Machine.concerns_of_evaluate_eq_error`: every failure concerns a token of the
  sequence.
- Theorem `Numeral.limit_lt_decimal_of_read`: digits are only rejected for their size.
- Theorem `evaluate_source_errors`: which errors a source can produce, and where.
-/

namespace Calculator

/-- What a failure says about the tokens that were evaluated.  A position is one more than
the index of a token. -/
inductive Failure.Concerns (tokens : List Token) : Failure → Prop where
  | unexpected {i : Nat} {token : Token} (htoken : tokens[i]? = some token)
      (hkind : token.kind ≠ .minus) :
      Concerns tokens (.grammatical (.unexpectedToken token.text (i + 1)))
  | missing (hunclosed : Unclosed tokens) :
      Concerns tokens (.grammatical (.unexpectedEnd tokens.length))
  | tooLarge {i : Nat} {token : Token} (htoken : tokens[i]? = some token)
      (hkind : token.kind = .number) (hread : Numeral.read token.text = .error .tooLarge) :
      Concerns tokens (.grammatical (.literalTooLarge token.text (i + 1)))
  | malformed {i : Nat} {token : Token} {fault : Numeral.Fault}
      (htoken : tokens[i]? = some token) (hkind : token.kind = .number)
      (hread : Numeral.read token.text = .error fault) (hfault : fault ≠ .tooLarge) :
      Concerns tokens (.grammatical (.malformedLiteral token.text (i + 1)))
  | nesting {i : Nat} {token : Token} (htoken : tokens[i]? = some token)
      (hkind : token.kind = .minus) :
      Concerns tokens (.grammatical (.nestingTooDeep (i + 1)))
  | arithmetic (error : ArithmeticError) : Concerns tokens (.arithmetic error)

namespace Machine

/-- There is a place for a minus everywhere. -/
theorem Control.after?_minus_ne_none (control : Control) : control.after? .minus ≠ none := by
  cases control <;> simp [after?]

/-- Every failure concerns a token of the sequence, or the lack of one. -/
theorem concerns_of_evaluate_eq_error {nestingLimit : Option Nat} {tokens : List Token}
    {cause : Failure} (herror : evaluate nestingLimit tokens = .error cause) :
    cause.Concerns tokens := by
  rcases bind_eq_error herror with hfeed | ⟨last, -, hanswer⟩
  · rcases feed_eq_error_iff.mp hfeed with ⟨i, token, middle, htoken, -, hstep⟩
    rw [Nat.zero_add] at hstep
    have hmishap := mishap_of_step hstep
    cases hafter : middle.control.after? token.kind with
    | none =>
        rw [hafter] at hmishap
        cases hmishap
        refine .unexpected htoken fun hminus => ?_
        rw [hminus] at hafter
        exact Control.after?_minus_ne_none _ hafter
    | some next =>
        rw [hafter] at hmishap
        cases hmishap with
        | nesting hkind => exact .nesting htoken hkind
        | tooLarge hkind hread => exact .tooLarge htoken hkind hread
        | malformed hkind hread hfault => exact .malformed htoken hkind hread hfault
        | arithmetic error => exact .arithmetic error
  · have hend : cause = .grammatical (.unexpectedEnd (0 + tokens.length)) := by
      cases last <;> cases hanswer <;> rfl
    rw [hend, Nat.zero_add] at herror
    rw [hend, Nat.zero_add]
    exact .missing (unclosed_of_evaluate_eq_unexpectedEnd herror).2

end Machine

/-! ## Tokens of a source -/

/-- Digits are only rejected because their number is above the greatest value. -/
theorem Numeral.limit_lt_decimal_of_read {text : String} {fault : Fault}
    (hnumeral : IsNumeral text) (hread : read text = .error fault) :
    fault = .tooLarge ∧ positiveLimit < decimal text := by
  rw [read_of_isNumeral hnumeral] at hread
  split at hread
  next => cases hread
  next hlarge =>
    cases hread
    exact ⟨rfl, Nat.lt_of_not_le hlarge⟩

section Spelled

variable {token : Token}

theorem Token.Spelled.eq_minus (hspelled : token.Spelled) (hkind : token.kind = .minus) :
    token = ⟨.minus, "-"⟩ := by
  rcases hspelled with ⟨hnumber, -⟩ | ⟨op, rfl⟩
  · rw [hkind] at hnumber
    cases hnumber
  · cases op <;> cases hkind
    rfl

/-- A spelled token that is no minus is a number or another operator. -/
theorem Token.Spelled.text_of_ne_minus (hspelled : token.Spelled)
    (hkind : token.kind ≠ .minus) : IsNumeral token.text ∨ token.text ∈ ["+", "*", "/"] := by
  rcases hspelled with ⟨-, hnumeral⟩ | ⟨op, rfl⟩
  · exact .inl hnumeral
  · right
    cases op
    case sub => exact absurd rfl hkind
    all_goals decide

theorem Token.Spelled.text_ne_empty (hspelled : token.Spelled) : token.text ≠ "" := by
  rcases hspelled with ⟨-, hne, -⟩ | ⟨op, rfl⟩
  · rintro htext
    rw [htext] at hne
    exact hne rfl
  · cases op <;> decide

end Spelled

section Pieces

variable {source : String} {i : Nat} {token : Token}

/-- A token of a source is one of its pieces, or it is the closing marker behind them. -/
theorem getElem?_pieces_append_endOfInput
    (htoken : (pieces source ++ [Token.endOfInput])[i]? = some token) :
    (i < (pieces source).length ∧ (pieces source)[i]? = some token) ∨
      (i = (pieces source).length ∧ token = .endOfInput) := by
  by_cases hi : i < (pieces source).length
  · rw [List.getElem?_append_left hi] at htoken
    exact .inl ⟨hi, htoken⟩
  · have hlength := (List.getElem?_eq_some_iff.mp htoken).1
    rw [List.length_append, List.length_singleton] at hlength
    obtain rfl : i = (pieces source).length := by omega
    rw [List.getElem?_concat_length] at htoken
    exact .inr ⟨rfl, (Option.some.inj htoken).symm⟩

/-- Of the tokens of a source, all but the closing marker are spelled. -/
theorem getElem?_pieces_of_kind_ne (hall : ∀ c ∈ source.toList, InAlphabet c)
    (htoken : (pieces source ++ [Token.endOfInput])[i]? = some token)
    (hkind : token.kind ≠ .endOfInput) :
    i < (pieces source).length ∧ (pieces source)[i]? = some token ∧ token.Spelled := by
  rcases getElem?_pieces_append_endOfInput htoken with ⟨hi, hpiece⟩ | ⟨-, rfl⟩
  · exact ⟨hi, hpiece, Token.spelled_of_mem_piecesOf hall (List.mem_of_getElem? hpiece)⟩
  · exact absurd rfl hkind

end Pieces

/-- A source fails for a lexical cause exactly when one of its characters is not in the
alphabet, whatever else is wrong with it.  All other sources have numbers of digits and end
where they are expected to end; an unexpected token is one of the pieces other than a minus,
or the closing marker behind them; a literal that is too large is a piece of digits for a
number above the greatest value; and a nesting that is too deep is reported at a minus. -/
theorem evaluate_source_errors (source : String) :
    ((∃ error, evaluate source = .error (.lexical error)) ↔
      ∃ c ∈ source.toList, ¬ InAlphabet c) ∧
    ((∀ c ∈ source.toList, InAlphabet c) →
      (∀ error, evaluate source ≠ .error (.lexical error)) ∧
      (∀ text position,
        evaluate source ≠ .error (.grammatical (.malformedLiteral text position))) ∧
      (∀ position, evaluate source ≠ .error (.grammatical (.unexpectedEnd position))) ∧
      (∀ text position,
        evaluate source = .error (.grammatical (.unexpectedToken text position)) →
        1 ≤ position ∧ position ≤ (pieces source).length + 1 ∧
          (text = "" ↔ position = (pieces source).length + 1) ∧
          (position ≤ (pieces source).length →
            (∃ piece, (pieces source)[position - 1]? = some piece ∧ piece.text = text) ∧
              (IsNumeral text ∨ text ∈ ["+", "*", "/"]))) ∧
      (∀ text position,
        evaluate source = .error (.grammatical (.literalTooLarge text position)) →
        1 ≤ position ∧ position ≤ (pieces source).length ∧
          (pieces source)[position - 1]? = some ⟨.number, text⟩ ∧ IsNumeral text ∧
          2 ^ 63 - 1 < Numeral.decimal text) ∧
      (∀ position, evaluate source = .error (.grammatical (.nestingTooDeep position)) →
        1 ≤ position ∧ position ≤ (pieces source).length ∧
          (pieces source)[position - 1]? = some ⟨.minus, "-"⟩)) := by
  have hconcerns : (∀ c ∈ source.toList, InAlphabet c) → ∀ cause,
      evaluate source = .error cause → cause.Concerns (pieces source ++ [Token.endOfInput]) := by
    intro hall cause herror
    rw [evaluate_eq_of_inAlphabet hall] at herror
    exact Machine.concerns_of_evaluate_eq_error herror
  constructor
  · constructor
    · intro h
      rcases h with ⟨error, herror⟩
      by_contra hnone
      have hall : ∀ c ∈ source.toList, InAlphabet c := by simpa using hnone
      cases hconcerns hall _ herror
    · intro hsome
      rcases exists_tokenize_eq_error (by simpa using hsome) with ⟨c, i, herror⟩
      exact ⟨.unexpectedCharacter c i, by rw [evaluate_eq, herror]⟩
  · intro hall
    refine ⟨?_, ?_, ?_, ?_, ?_, ?_⟩
    · intro error herror
      cases hconcerns hall _ herror
    · intro text position herror
      cases hconcerns hall _ herror with
      | malformed htoken hkind hread hfault =>
          rcases getElem?_pieces_of_kind_ne hall htoken (by simp [hkind]) with ⟨-, -, hspelled⟩
          exact hfault (Numeral.limit_lt_decimal_of_read (hspelled.isNumeral hkind) hread).1
    · intro position herror
      cases hconcerns hall _ herror with
      | missing hunclosed => exact hunclosed Token.endOfInput (by simp) rfl
    · intro text position herror
      cases hconcerns hall _ herror with
      | unexpected htoken hkind =>
          rcases getElem?_pieces_append_endOfInput htoken with ⟨hi, hpiece⟩ | ⟨rfl, rfl⟩
          · have hspelled := Token.spelled_of_mem_piecesOf hall (List.mem_of_getElem? hpiece)
            exact ⟨by omega, by omega, iff_of_false hspelled.text_ne_empty (by omega),
              fun _ => ⟨⟨_, hpiece, rfl⟩, hspelled.text_of_ne_minus hkind⟩⟩
          · exact ⟨by omega, by omega, iff_of_true rfl rfl, fun hle => by omega⟩
    · intro text position herror
      cases hconcerns hall _ herror with
      | @tooLarge i token htoken hkind hread =>
          rcases getElem?_pieces_of_kind_ne hall htoken (by simp [hkind]) with
            ⟨hi, hpiece, hspelled⟩
          have hnumeral := hspelled.isNumeral hkind
          refine ⟨by omega, by omega, ?_, hnumeral,
            (Numeral.limit_lt_decimal_of_read hnumeral hread).2⟩
          rw [Nat.add_sub_cancel, hpiece, ← hkind]
    · intro position herror
      cases hconcerns hall _ herror with
      | @nesting i token htoken hkind =>
          rcases getElem?_pieces_of_kind_ne hall htoken (by simp [hkind]) with
            ⟨hi, hpiece, hspelled⟩
          refine ⟨by omega, by omega, ?_⟩
          rw [Nat.add_sub_cancel, hpiece, hspelled.eq_minus hkind]

/-- A stranger behind a division by zero, a number behind another one, a missing factor, and
a literal that is too large for its minus. -/
theorem evaluate_source_errors_at_second_number :
    (∃ error, evaluate "1/0?" = .error (.lexical error)) ∧
      (evaluate "12 34" = .error (.grammatical (.unexpectedToken "34" 2)) ∧
        ∃ piece, (pieces "12 34")[1]? = some piece ∧ piece.text = "34") ∧
      (evaluate "12*" = .error (.grammatical (.unexpectedToken "" 3)) ∧
        3 = (pieces "12*").length + 1) ∧
      (evaluate "-9223372036854775808" =
          .error (.grammatical (.literalTooLarge "9223372036854775808" 2)) ∧
        2 ^ 63 - 1 < Numeral.decimal "9223372036854775808") := by
  have hnumber : evaluate "12 34" = .error (.grammatical (.unexpectedToken "34" 2)) :=
    (evaluate_eq_of_inAlphabet (by simp [InAlphabet])).trans rfl
  have hfactor : evaluate "12*" = .error (.grammatical (.unexpectedToken "" 3)) :=
    (evaluate_eq_of_inAlphabet (by simp [InAlphabet])).trans rfl
  have hliteral : evaluate "-9223372036854775808" =
      .error (.grammatical (.literalTooLarge "9223372036854775808" 2)) :=
    (evaluate_eq_of_inAlphabet (by simp [InAlphabet])).trans rfl
  refine ⟨?_, ⟨hnumber, ?_⟩, ⟨hfactor, ?_⟩, ⟨hliteral, ?_⟩⟩
  · exact (evaluate_source_errors "1/0?").1.mpr ⟨'?', by simp, by simp [InAlphabet]⟩
  · have herrors := (evaluate_source_errors "12 34").2 (by simp [InAlphabet])
    exact ((herrors.2.2.2.1 "34" 2 hnumber).2.2.2 (by decide)).1
  · have herrors := (evaluate_source_errors "12*").2 (by simp [InAlphabet])
    exact (herrors.2.2.2.1 "" 3 hfactor).2.2.1.mp rfl
  · have herrors := (evaluate_source_errors "-9223372036854775808").2 (by simp [InAlphabet])
    exact (herrors.2.2.2.2.1 _ 2 hliteral).2.2.2.2

end Calculator
