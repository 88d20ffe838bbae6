import Calculator.Proofs.Machine.Prefix
import Calculator.Proofs.Machine.Simulation

/-!
# Syntax errors

An unexpected token is the first token of a sequence that has no place after the ones in
front of it, and an unexpected end is the end of a sequence whose tokens all have a
place.  The tokens in front of an unexpected token are a sequence that ends too early,
so that nothing else is wrong with them.

Main results:

- Theorem `Machine.evaluate_eq_unexpectedToken_iff`: where a token is unexpected.
- Theorem `Machine.evaluate_take_eq_unexpectedEnd`: where the end is unexpected, it is
  unexpected for every portion from the front.
- Theorem `syntaxErrors_afterCorrectPrefix`: both, for the evaluation of tokens.
-/

namespace Calculator
namespace Machine

variable {nestingLimit : Option Nat} {tokens : List Token} {position : Nat}

/-! ## Unexpected tokens -/

/-- A token is unexpected where the tokens in front of it lead to a control that has no
place for it. -/
theorem evaluate_eq_unexpectedToken_iff_after {text : String} :
    evaluate nestingLimit tokens = .error (.grammatical (.unexpectedToken text position)) ↔
      ∃ i token middle, tokens[i]? = some token ∧
        feed nestingLimit .start 0 (tokens.take i) = .ok middle ∧
        middle.control.after? token.kind = none ∧ text = token.text ∧ position = i + 1 := by
  constructor
  · intro hunexpected
    rcases bind_eq_error hunexpected with hfeed | ⟨last, -, hanswer⟩
    · rcases feed_eq_error_iff.mp hfeed with ⟨i, token, middle, htoken, hmiddle, hstep⟩
      rcases step_eq_unexpectedToken_iff.mp hstep with ⟨hafter, htext, hposition⟩
      exact ⟨i, token, middle, htoken, hmiddle, hafter, htext, by omega⟩
    · cases last <;> cases hanswer
  · intro h
    rcases h with ⟨i, token, middle, htoken, hmiddle, hafter, htext, hposition⟩
    have hstep : step nestingLimit middle (0 + i + 1) token =
        .error (.grammatical (.unexpectedToken text position)) :=
      step_eq_unexpectedToken_iff.mpr ⟨hafter, htext, by omega⟩
    exact evaluate_of_feed_error
      (feed_eq_error_iff.mpr ⟨i, token, middle, htoken, hmiddle, hstep⟩)

/-- A token is unexpected exactly where it is out of place and the tokens in front of it
end too early. -/
theorem evaluate_eq_unexpectedToken_iff {text : String} :
    evaluate nestingLimit tokens = .error (.grammatical (.unexpectedToken text position)) ↔
      1 ≤ position ∧ position ≤ tokens.length ∧
        evaluate nestingLimit (tokens.take (position - 1)) =
          .error (.grammatical (.unexpectedEnd (position - 1))) ∧
        ∃ token, tokens[position - 1]? = some token ∧ token.text = text ∧
          OutOfPlace (tokens.take (position - 1)) token.kind := by
  rw [evaluate_eq_unexpectedToken_iff_after]
  constructor
  · intro h
    rcases h with ⟨i, token, middle, htoken, hmiddle, hafter, htext, rfl⟩
    have hi : i < tokens.length := (List.getElem?_eq_some_iff.mp htoken).1
    rcases (fits_of_feed hmiddle).after?_eq_none_iff.mp hafter with ⟨hdone, hplace⟩
    rw [Nat.add_sub_cancel]
    refine ⟨by omega, by omega, ?_, token, htoken, htext.symm, hplace⟩
    exact evaluate_eq_unexpectedEnd_iff.mpr
      ⟨by rw [List.length_take]; omega, middle, hmiddle, hdone⟩
  · intro h
    rcases h with ⟨hpos, -, hend, token, htoken, htext, hplace⟩
    rcases evaluate_eq_unexpectedEnd_iff.mp hend with ⟨-, middle, hmiddle, hdone⟩
    have hafter := (fits_of_feed hmiddle).after?_eq_none_iff.mpr ⟨hdone, hplace⟩
    exact ⟨position - 1, token, middle, htoken, hmiddle, hafter, htext.symm, by omega⟩

/-- A sequence has no value if a token in front of the closing marker is out of place. -/
theorem evaluate_ne_ok_of_outOfPlace {read others : List Token} {token : Token} {value : Int64}
    (hunclosed : Unclosed read) (hplace : OutOfPlace read token.kind) :
    evaluate nestingLimit (read ++ token :: others) ≠ .ok value := by
  intro hvalue
  rcases bind_eq_ok hvalue with ⟨last, hfeed, -⟩
  rw [feed_append] at hfeed
  rcases bind_eq_ok hfeed with ⟨middle, hmiddle, hfeed⟩
  rw [feed_cons] at hfeed
  rcases bind_eq_ok hfeed with ⟨next, hstep, -⟩
  have hfits : middle.control.Fits read := fits_of_feed hmiddle
  have hnone : middle.control.after? token.kind = none :=
    hfits.after?_eq_none_iff.mpr ⟨hfits.ne_done_iff.mpr hunclosed, hplace⟩
  rw [control_of_step hstep] at hnone
  cases hnone

/-! ## Unexpected ends -/

/-- A sequence with an unexpected end has no closing marker. -/
theorem unclosed_of_evaluate_eq_unexpectedEnd
    (hend : evaluate nestingLimit tokens = .error (.grammatical (.unexpectedEnd position))) :
    position = tokens.length ∧ Unclosed tokens := by
  rcases evaluate_eq_unexpectedEnd_iff.mp hend with ⟨hposition, last, hfeed, hdone⟩
  exact ⟨hposition, (fits_of_feed hfeed).ne_done_iff.mp hdone⟩

/-- Where the end is unexpected, it is unexpected for every portion from the front. -/
theorem evaluate_take_eq_unexpectedEnd
    (hend : evaluate nestingLimit tokens = .error (.grammatical (.unexpectedEnd position)))
    {k : Nat} (hk : k ≤ tokens.length) :
    evaluate nestingLimit (tokens.take k) = .error (.grammatical (.unexpectedEnd k)) := by
  rcases evaluate_eq_unexpectedEnd_iff.mp hend with ⟨-, last, hfeed, -⟩
  have hunclosed : Unclosed tokens := (unclosed_of_evaluate_eq_unexpectedEnd hend).2
  rw [← List.take_append_drop k tokens, feed_append] at hfeed
  rcases bind_eq_ok hfeed with ⟨middle, hmiddle, -⟩
  refine evaluate_eq_unexpectedEnd_iff.mpr ⟨by rw [List.length_take]; omega, middle, hmiddle, ?_⟩
  apply (fits_of_feed hmiddle).ne_done_iff.mpr
  intro token htoken
  exact hunclosed token (List.mem_of_mem_take htoken)

end Machine

/-- A minus is never out of place. -/
theorem not_outOfPlace_minus (read : List Token) : ¬ OutOfPlace read .minus := by
  simp [OutOfPlace]

/-- Syntax errors stand behind correct prefixes.  A token is unexpected exactly where the
tokens in front of it end too early and it has no place after them, which is never a
minus; and where the end of a sequence is unexpected, nothing but the end is missing in
it and in all its prefixes. -/
theorem syntaxErrors_afterCorrectPrefix (tokens : List Token) :
    (∀ text position,
      evaluateTokens tokens = .error (.grammatical (.unexpectedToken text position)) ↔
        1 ≤ position ∧ position ≤ tokens.length ∧
          evaluateTokens (tokens.take (position - 1)) =
            .error (.grammatical (.unexpectedEnd (position - 1))) ∧
          ∃ token, tokens[position - 1]? = some token ∧ token.text = text ∧
            OutOfPlace (tokens.take (position - 1)) token.kind) ∧
    (∀ text position token,
      evaluateTokens tokens = .error (.grammatical (.unexpectedToken text position)) →
        tokens[position - 1]? = some token → token.kind ≠ .minus) ∧
    (∀ position,
      evaluateTokens tokens = .error (.grammatical (.unexpectedEnd position)) →
        position = tokens.length ∧ (∀ token ∈ tokens, token.kind ≠ .endOfInput) ∧
          ∀ k ≤ tokens.length,
            evaluateTokens (tokens.take k) = .error (.grammatical (.unexpectedEnd k))) := by
  have hmachine : evaluateTokens = Machine.evaluate (some 256) :=
    funext (Machine.evaluateTokensWithin_eq (some 256))
  rw [hmachine]
  refine ⟨fun text position => Machine.evaluate_eq_unexpectedToken_iff, ?_, ?_⟩
  · intro text position token hunexpected htoken hminus
    obtain ⟨-, -, -, found, hfound, -, hplace⟩ :=
      Machine.evaluate_eq_unexpectedToken_iff.mp hunexpected
    rw [htoken] at hfound
    cases hfound
    rw [hminus] at hplace
    exact not_outOfPlace_minus _ hplace
  · intro position hend
    rcases Machine.unclosed_of_evaluate_eq_unexpectedEnd hend with ⟨hposition, hunclosed⟩
    exact ⟨hposition, hunclosed, fun k hk => Machine.evaluate_take_eq_unexpectedEnd hend hk⟩

end Calculator
