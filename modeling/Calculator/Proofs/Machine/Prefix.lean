import Calculator.Proofs.Machine.Control
import Calculator.Proofs.Placement

/-!
# What a control says about the tokens read

The control of a state that was reached by reading tokens is a summary of these
tokens: what the last of them asks for, whether the closing marker is among them, and
how many negations are open.

Main results:

- Theorem `Machine.fits_of_feed`: the control after a run fits the tokens read.
- Theorem `Machine.Control.Fits.after?_eq_none_iff`: the control has no place for
  exactly the tokens that are out of place.
-/

namespace Calculator
namespace Machine

/-- A control is a summary of the tokens read. -/
def Control.Fits : Control → List Token → Prop
  | start, read => read = []
  | operand depth, read =>
      read ≠ [] ∧ ExpectsOperand read ∧ Unclosed read ∧ depth = openMinuses read
  | operator depth, read => FollowsNumber read ∧ Unclosed read ∧ depth = openMinuses read
  | done, read => ¬ Unclosed read

namespace Control

variable {control next : Control} {read : List Token} {token : Token} {depth : Nat}

/-! ## One more token -/

/-- Where an operand is awaited, the control fits if its depth is the number of negations open. -/
theorem fits_operand (hkind : token.kind.AwaitsOperand) (hunclosed : Unclosed read)
    (hdepth : depth = openMinuses (read ++ [token])) :
    (operand depth).Fits (read ++ [token]) := by
  have hopen : token.kind ≠ .endOfInput := by
    intro hend
    rw [hend] at hkind
    simp [Token.Kind.AwaitsOperand] at hkind
  exact ⟨by simp, expectsOperand_concat.mpr hkind, unclosed_concat.mpr ⟨hunclosed, hopen⟩, hdepth⟩

/-- Behind a number, the control fits if its depth is that in front of the number. -/
theorem fits_operator (hkind : token.kind = .number) (hunclosed : Unclosed read)
    (hdepth : depth = openMinuses read) : (operator depth).Fits (read ++ [token]) := by
  have hopen : token.kind ≠ .endOfInput := by rw [hkind]; simp
  refine ⟨followsNumber_concat.mpr hkind, unclosed_concat.mpr ⟨hunclosed, hopen⟩, ?_⟩
  rw [hdepth, openMinuses_concat_of_ne (by rw [hkind]; simp) (by rw [hkind]; simp)]

theorem fits_done (hkind : token.kind = .endOfInput) : done.Fits (read ++ [token]) := by
  intro hunclosed
  exact (unclosed_concat.mp hunclosed).2 hkind

/-- A token in the place of an operand. -/
theorem fits_after_operand (hexpects : ExpectsOperand read) (hunclosed : Unclosed read)
    (hdepth : depth = openMinuses read)
    (hafter : (operand depth).after? token.kind = some next) : next.Fits (read ++ [token]) := by
  cases hkind : token.kind <;> rw [hkind] at hafter <;> cases hafter
  case minus =>
    refine fits_operand (by simp [hkind, Token.Kind.AwaitsOperand]) hunclosed ?_
    rw [hdepth, openMinuses_concat_unary ⟨hkind, hexpects⟩]
  case number => exact fits_operator hkind hunclosed hdepth

/-- A token after an operand. -/
theorem fits_after_operator (hnumber : FollowsNumber read) (hunclosed : Unclosed read)
    (hdepth : depth = openMinuses read)
    (hafter : (operator depth).after? token.kind = some next) : next.Fits (read ++ [token]) := by
  cases hkind : token.kind <;> rw [hkind] at hafter <;> cases hafter
  case plus =>
    refine fits_operand (by simp [hkind, Token.Kind.AwaitsOperand]) hunclosed ?_
    rw [openMinuses_concat_sign (.inl hkind)]
  case minus =>
    refine fits_operand (by simp [hkind, Token.Kind.AwaitsOperand]) hunclosed ?_
    rw [openMinuses_concat_sign (.inr ⟨hkind, hnumber⟩)]
  case star =>
    refine fits_operand (by simp [hkind, Token.Kind.AwaitsOperand]) hunclosed ?_
    rw [hdepth, openMinuses_concat_of_ne (by rw [hkind]; simp) (by rw [hkind]; simp)]
  case slash =>
    refine fits_operand (by simp [hkind, Token.Kind.AwaitsOperand]) hunclosed ?_
    rw [hdepth, openMinuses_concat_of_ne (by rw [hkind]; simp) (by rw [hkind]; simp)]
  case endOfInput => exact fits_done hkind

/-- The control after a token fits the tokens with this one. -/
theorem Fits.after (hfits : control.Fits read) (hafter : control.after? token.kind = some next) :
    next.Fits (read ++ [token]) := by
  cases control with
  | start =>
      obtain rfl : read = [] := hfits
      by_cases hkind : token.kind = .endOfInput
      · rw [hkind] at hafter
        cases hafter
        exact fits_done hkind
      · -- the front is a place for an operand like any other
        rw [after?_start hkind] at hafter
        exact fits_after_operand expectsOperand_nil unclosed_nil rfl hafter
  | operand depth =>
      rcases hfits with ⟨-, hexpects, hunclosed, hdepth⟩
      exact fits_after_operand hexpects hunclosed hdepth hafter
  | operator depth =>
      rcases hfits with ⟨hnumber, hunclosed, hdepth⟩
      exact fits_after_operator hnumber hunclosed hdepth hafter
  | done =>
      cases hafter
      intro hunclosed
      exact hfits (unclosed_concat.mp hunclosed).1

/-! ## Tokens without a place -/

/-- The control has no place for exactly the tokens that are out of place. -/
theorem Fits.after?_eq_none_iff {kind : Token.Kind} (hfits : control.Fits read) :
    control.after? kind = none ↔ control ≠ .done ∧ OutOfPlace read kind := by
  cases control with
  | start =>
      obtain rfl : read = [] := hfits
      cases kind <;> simp [after?, OutOfPlace, expectsOperand_nil, FollowsNumber]
  | operand depth =>
      rcases hfits with ⟨hread, hexpects, -, -⟩
      have hnumber : ¬ FollowsNumber read := fun hnumber => hnumber.not_expectsOperand hexpects
      cases kind <;> simp [after?, OutOfPlace, hread, hexpects, hnumber]
  | operator depth =>
      rcases hfits with ⟨hnumber, -, -⟩
      have hexpects : ¬ ExpectsOperand read := hnumber.not_expectsOperand
      cases kind <;> simp [after?, OutOfPlace, hnumber, hexpects]
  | done => cases kind <;> simp [after?]

/-- The machine goes on until the closing marker was read. -/
theorem Fits.ne_done_iff (hfits : control.Fits read) : control ≠ .done ↔ Unclosed read := by
  cases control with
  | start =>
      obtain rfl : read = [] := hfits
      simp [unclosed_nil]
  | operand depth => simp [hfits.2.2.1]
  | operator depth => simp [hfits.2.1]
  | done => exact iff_of_false (fun hdone => hdone rfl) hfits

end Control

/-! ## Runs -/

section Runs

variable {nestingLimit : Option Nat} {state last : State} {position : Nat}
  {read tokens : List Token}

/-- A run extends what the control is a summary of. -/
theorem fits_of_feed_from (hfits : state.control.Fits read)
    (hfeed : feed nestingLimit state position tokens = .ok last) :
    last.control.Fits (read ++ tokens) := by
  induction tokens generalizing state position read with
  | nil =>
      cases hfeed
      rwa [List.append_nil]
  | cons token others ih =>
      rw [feed_cons] at hfeed
      rcases bind_eq_ok hfeed with ⟨next, hstep, hfeed⟩
      have hnext : next.control.Fits (read ++ [token]) := hfits.after (control_of_step hstep)
      have hlast := ih hnext hfeed
      rwa [List.append_assoc] at hlast

/-- The control after a run fits the tokens read. -/
theorem fits_of_feed (hfeed : feed nestingLimit .start position tokens = .ok last) :
    last.control.Fits tokens := by
  have hstart : State.start.control.Fits [] := rfl
  exact fits_of_feed_from hstart hfeed

end Runs

end Machine
end Calculator
