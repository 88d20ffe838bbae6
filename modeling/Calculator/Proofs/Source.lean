import Calculator.Proofs.Machine.Simulation
import Calculator.Proofs.Pieces
import Calculator.Proofs.Placement

/-!
# Sources on the machine

A source whose characters are all in the alphabet is evaluated by running the machine on its
pieces and the closing marker.  None of the pieces is a marker.

Main results:

- Theorem `evaluate_eq_of_inAlphabet`: evaluating a source is running the machine on its
  pieces.
-/

namespace Calculator

variable {source : String}

/-- The closing marker is not among the pieces of a source. -/
theorem unclosed_pieces (hall : ∀ c ∈ source.toList, InAlphabet c) :
    Unclosed (pieces source) :=
  fun _ hpiece => (Token.spelled_of_mem_piecesOf hall hpiece).kind_ne_endOfInput

/-- A source with more than spaces has pieces. -/
theorem pieces_ne_nil (hall : ∀ c ∈ source.toList, InAlphabet c)
    (hsome : ∃ c ∈ source.toList, c ≠ ' ') : pieces source ≠ [] := by
  intro hnil
  rcases hsome with ⟨c, hc, hspace⟩
  exact hspace ((piecesOf_eq_nil_iff hall).mp hnil c hc)

/-- Evaluating a source is running the machine on its pieces and the closing marker. -/
theorem evaluate_eq_of_inAlphabet (hall : ∀ c ∈ source.toList, InAlphabet c) :
    evaluate source = Machine.evaluate (some 256) (pieces source ++ [Token.endOfInput]) := by
  have htokens := tokenize_eq_ok_iff.mpr ⟨hall, rfl⟩
  rw [evaluate_eq, htokens]
  exact Machine.evaluateTokensWithin_eq (some 256) _

end Calculator
