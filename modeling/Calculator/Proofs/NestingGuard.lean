import Calculator.Proofs.SyntaxErrors

/-!
# The nesting guard

A limit on the negations open at once makes itself felt at one token only: the first
minus that opens one negation more than allowed, and only if all tokens in front of it
were read.  Everywhere else an evaluation under a limit is the evaluation without one.

Main results:

- Theorem `Machine.feed_eq_or_blocked`: runs under a limit and without one are the same
  until a minus is blocked.
- Theorem `Machine.depth_le_of_feed`: under a limit no more negations are open.
- Theorem `nestingGuard_exact`: the guard speaks up at the first minus that is one too
  many, and nowhere else.
-/

namespace Calculator

/-- The token at an index is a minus that opens one negation more than the limit. -/
def OpensTooMany (limit : Nat) (tokens : List Token) (i : Nat) : Prop :=
  UnaryMinusAt tokens i ∧ openMinuses (tokens.take (i + 1)) = limit + 1

/-- The first minus of a sequence that opens one negation more than the limit. -/
def IsFirstTooMany (limit : Nat) (tokens : List Token) (i : Nat) : Prop :=
  OpensTooMany limit tokens i ∧ ∀ k < i, ¬ OpensTooMany limit tokens k

/-- Behind a minus in the place of an operand, one more negation is open. -/
theorem openMinuses_take_succ {tokens : List Token} {i : Nat} (hunary : UnaryMinusAt tokens i) :
    openMinuses (tokens.take (i + 1)) = openMinuses (tokens.take i) + 1 := by
  rcases hunary with ⟨token, htoken, hminus⟩
  rw [List.take_add_one, htoken]
  exact openMinuses_concat_unary hminus

namespace Machine
namespace Control

/-- The negations open. -/
def depth : Control → Nat
  | operand depth => depth
  | operator depth => depth
  | start => 0
  | done => 0

/-- Under a limit, a token of the kind is blocked. -/
def Blocks (limit : Nat) : Control → Token.Kind → Prop
  | start, .minus => limit = 0
  | operand depth, .minus => limit ≤ depth
  | _, _ => False

variable {limit : Nat} {control next : Control} {kind : Token.Kind} {read : List Token}

/-- A token that is not blocked keeps the negations within the limit. -/
theorem depth_after?_le (hdepth : control.depth ≤ limit) (hfree : ¬ control.Blocks limit kind)
    (hafter : control.after? kind = some next) : next.depth ≤ limit := by
  cases control <;> cases kind <;> cases hafter <;>
    simp only [depth, Blocks, Nat.not_le] at hdepth hfree ⊢ <;> omega

/-- A token is blocked where it is a minus in the place of an operand and as many
negations are open as the limit allows. -/
theorem Fits.blocks_iff (hfits : control.Fits read) (hopen : control ≠ .done) :
    control.Blocks limit kind ↔
      kind = .minus ∧ ExpectsOperand read ∧ limit ≤ openMinuses read := by
  cases control with
  | start =>
      obtain rfl : read = [] := hfits
      cases kind <;> simp [Blocks, expectsOperand_nil]
  | operand depth =>
      rcases hfits with ⟨-, hexpects, -, hdepth⟩
      cases kind <;> simp [Blocks, hexpects, hdepth]
  | operator depth =>
      have hexpects : ¬ ExpectsOperand read := hfits.1.not_expectsOperand
      cases kind <;> simp [Blocks, hexpects]
  | done => exact absurd rfl hopen

/-- The depth of a control is the number of negations open, until the end is reached. -/
theorem Fits.depth_eq (hfits : control.Fits read) (hopen : control ≠ .done) :
    control.depth = openMinuses read := by
  cases control with
  | start =>
      obtain rfl : read = [] := hfits
      rfl
  | operand depth => exact hfits.2.2.2
  | operator depth => exact hfits.2.2
  | done => exact absurd rfl hopen

theorem Blocks.ne_done (hblocks : control.Blocks limit kind) : control ≠ .done := by
  rintro rfl
  exact hblocks

end Control

/-! ## Runs under a limit and without one -/

section Guarded

variable {limit : Nat} {state last : State} {position : Nat} {token : Token}
  {tokens : List Token}

/-- With the limit reached, a minus in the place of an operand is nested too deep. -/
theorem stepOperand_blocked {sum top : Option Pending} {below : List (Option Pending)}
    (hkind : token.kind = .minus) (hfull : limit ≤ below.length) :
    stepOperand (some limit) sum below top position token =
      .error (.grammatical (.nestingTooDeep position)) := by
  refine stepOperand_tooDeep hkind ?_
  simpa using hfull

/-- Where there is room for a minus, a step is the one without a limit. -/
theorem stepOperand_free {sum top : Option Pending} {below : List (Option Pending)}
    (hfree : token.kind = .minus → below.length < limit) :
    stepOperand (some limit) sum below top position token =
      stepOperand none sum below top position token := by
  by_cases hkind : token.kind = .minus
  · rw [stepOperand_minus hkind (by simpa using hfree hkind), stepOperand_minus hkind rfl]
  · unfold stepOperand
    split
    next hminus => exact absurd hminus hkind
    all_goals rfl

/-- A blocked token ends the run. -/
theorem step_blocked (hblocks : state.control.Blocks limit token.kind) :
    step (some limit) state position token =
      .error (.grammatical (.nestingTooDeep position)) := by
  cases hkind : token.kind <;> rw [hkind] at hblocks
  case minus =>
    cases state with
    | start =>
        obtain rfl : limit = 0 := hblocks
        rw [step, if_neg (by rw [hkind]; simp)]
        exact stepOperand_blocked hkind (Nat.le_refl 0)
    | operand sum below top => exact stepOperand_blocked hkind hblocks
    | operator sum below value => exact absurd hblocks id
    | done value => exact absurd hblocks id
  all_goals cases state <;> exact absurd hblocks id

/-- A token that is not blocked is read as without a limit. -/
theorem step_free (hfree : ¬ state.control.Blocks limit token.kind) :
    step (some limit) state position token = step none state position token := by
  cases state with
  | start =>
      rw [step, step]
      split
      · rfl
      · apply stepOperand_free
        intro hkind
        rw [hkind] at hfree
        exact Nat.pos_of_ne_zero hfree
  | operand sum below top =>
      apply stepOperand_free
      intro hkind
      rw [hkind] at hfree
      exact Nat.lt_of_not_le hfree
  | operator sum below value => rfl
  | done value => rfl

/-- Runs under a limit and without one are the same until a token is blocked. -/
theorem feed_eq_or_blocked (limit : Nat) (state : State) (position : Nat) (tokens : List Token) :
    feed (some limit) state position tokens = feed none state position tokens ∨
      ∃ i token middle, tokens[i]? = some token ∧
        feed (some limit) state position (tokens.take i) = .ok middle ∧
        middle.control.Blocks limit token.kind := by
  induction tokens generalizing state position with
  | nil => exact .inl rfl
  | cons token others ih =>
      by_cases hblocks : state.control.Blocks limit token.kind
      · exact .inr ⟨0, token, state, rfl, rfl, hblocks⟩
      · rw [feed_cons, feed_cons, step_free hblocks]
        cases hstep : step none state (position + 1) token with
        | error cause => exact .inl rfl
        | ok next =>
            rcases ih next (position + 1) with
              hsame | ⟨i, token', middle, htoken, hmiddle, hblocked⟩
            · exact .inl hsame
            · refine .inr ⟨i + 1, token', middle, htoken, ?_, hblocked⟩
              rw [List.take_succ_cons, feed_cons, step_free hblocks, hstep]
              exact hmiddle

/-- What is fed never takes the depth beyond the limit. -/
theorem depth_le_of_feed_from (hdepth : state.control.depth ≤ limit)
    (hfeed : feed (some limit) state position tokens = .ok last) :
    last.control.depth ≤ limit := by
  induction tokens generalizing state position with
  | nil =>
      cases hfeed
      exact hdepth
  | cons token others ih =>
      rw [feed_cons] at hfeed
      rcases bind_eq_ok hfeed with ⟨next, hstep, hfeed⟩
      have hfree : ¬ state.control.Blocks limit token.kind := by
        intro hblocks
        rw [step_blocked hblocks] at hstep
        cases hstep
      exact ih (Control.depth_after?_le hdepth hfree (control_of_step hstep)) hfeed

/-- Under a limit no more negations are open. -/
theorem depth_le_of_feed (hfeed : feed (some limit) .start position tokens = .ok last) :
    last.control.depth ≤ limit := by
  have hstart : State.start.control.depth ≤ limit := Nat.zero_le limit
  exact depth_le_of_feed_from hstart hfeed

/-! ## The first minus too many -/

/-- Among tokens that only lack their end, no minus is one too many. -/
theorem not_opensTooMany_of_unexpectedEnd {i k : Nat} (hk : k < i)
    (hend : evaluate (some limit) (tokens.take i) = .error (.grammatical (.unexpectedEnd i))) :
    ¬ OpensTooMany limit tokens k := by
  intro h
  rcases h with ⟨-, hcount⟩
  have hlength : i = (tokens.take i).length := (evaluate_eq_unexpectedEnd_iff.mp hend).1
  have htake := evaluate_take_eq_unexpectedEnd hend (show k + 1 ≤ (tokens.take i).length by omega)
  rw [List.take_take, Nat.min_eq_left hk] at htake
  rcases evaluate_eq_unexpectedEnd_iff.mp htake with ⟨-, last, hfeed, hopen⟩
  have hdepth : last.control.depth = openMinuses (tokens.take (k + 1)) :=
    (fits_of_feed hfeed).depth_eq hopen
  have hle : last.control.depth ≤ limit := depth_le_of_feed hfeed
  omega

/-- Where the tokens in front of a minus too many only lack their end, the guard stops
the run at it. -/
theorem evaluate_eq_nestingTooDeep {i : Nat} (htooMany : OpensTooMany limit tokens i)
    (hend : evaluate (some limit) (tokens.take i) = .error (.grammatical (.unexpectedEnd i))) :
    evaluate (some limit) tokens = .error (.grammatical (.nestingTooDeep (i + 1))) := by
  rcases htooMany with ⟨hunary, hcount⟩
  rw [openMinuses_take_succ hunary] at hcount
  rcases hunary with ⟨token, htoken, hminus, hexpects⟩
  rcases evaluate_eq_unexpectedEnd_iff.mp hend with ⟨-, middle, hmiddle, hopen⟩
  have hblocks : middle.control.Blocks limit token.kind :=
    ((fits_of_feed hmiddle).blocks_iff hopen).mpr ⟨hminus, hexpects, by omega⟩
  have hfeed := feed_eq_error_iff.mpr ⟨i, token, middle, htoken, hmiddle, step_blocked hblocks⟩
  rw [evaluate_of_feed_error hfeed, Nat.zero_add]

/-- Where the guard makes a difference, there is a first minus too many, and the tokens
in front of it only lack their end. -/
theorem exists_isFirstTooMany
    (hdiffer : evaluate (some limit) tokens ≠ evaluate none tokens) :
    ∃ i, IsFirstTooMany limit tokens i ∧
      evaluate (some limit) (tokens.take i) = .error (.grammatical (.unexpectedEnd i)) := by
  rcases feed_eq_or_blocked limit .start 0 tokens with
    hsame | ⟨i, token, middle, htoken, hmiddle, hblocks⟩
  · exact absurd (by rw [evaluate, evaluate, run, run, hsame]) hdiffer
  · have hi : i < tokens.length := (List.getElem?_eq_some_iff.mp htoken).1
    have hlength : (tokens.take i).length = i := by
      rw [List.length_take]
      omega
    have hopen : middle.control ≠ .done := hblocks.ne_done
    have hfits : middle.control.Fits (tokens.take i) := fits_of_feed hmiddle
    have hend : evaluate (some limit) (tokens.take i) = .error (.grammatical (.unexpectedEnd i)) :=
      evaluate_eq_unexpectedEnd_iff.mpr ⟨hlength.symm, middle, hmiddle, hopen⟩
    rcases (hfits.blocks_iff hopen).mp hblocks with ⟨hminus, hexpects, hge⟩
    have hunary : UnaryMinusAt tokens i := ⟨token, htoken, hminus, hexpects⟩
    have hle : middle.control.depth ≤ limit := depth_le_of_feed hmiddle
    rw [hfits.depth_eq hopen] at hle
    have htooMany : OpensTooMany limit tokens i := by
      refine ⟨hunary, ?_⟩
      rw [openMinuses_take_succ hunary]
      omega
    exact ⟨i, ⟨htooMany, fun k hk => not_opensTooMany_of_unexpectedEnd hk hend⟩, hend⟩

end Guarded

end Machine

/-- The nesting guard is exact and otherwise transparent.  An evaluation fails at the first
minus that opens a 257th negation, provided that the tokens in front of it only lack their
end, and in every other case it is the evaluation without a limit.  A product adds up the
negations of its factors, and each term of a sum starts with none. -/
theorem nestingGuard_exact (tokens : List Token) :
    (∀ i, IsFirstTooMany 256 tokens i →
      evaluateTokens (tokens.take i) = .error (.grammatical (.unexpectedEnd i)) →
        evaluateTokens tokens = .error (.grammatical (.nestingTooDeep (i + 1)))) ∧
    ((∀ i, IsFirstTooMany 256 tokens i →
      evaluateTokens (tokens.take i) ≠ .error (.grammatical (.unexpectedEnd i))) →
        evaluateTokens tokens = evaluateTokensWithin none tokens) ∧
    (∀ read token, openMinuses (read ++ [token]) =
      if IsBinarySign read token then 0
      else if IsUnaryMinus read token then openMinuses read + 1
      else openMinuses read) := by
  have hguarded : evaluateTokens = Machine.evaluate (some 256) :=
    funext (Machine.evaluateTokensWithin_eq (some 256))
  rw [hguarded, Machine.evaluateTokensWithin_eq none]
  refine ⟨fun i hfirst hend => Machine.evaluate_eq_nestingTooDeep hfirst.1 hend, ?_, ?_⟩
  · intro hnone
    by_cases hsame : Machine.evaluate (some 256) tokens = Machine.evaluate none tokens
    · exact hsame
    · rcases Machine.exists_isFirstTooMany hsame with ⟨i, hfirst, hend⟩
      exact absurd hend (hnone i hfirst)
  · intro read token
    by_cases hsign : IsBinarySign read token
    · rw [if_pos hsign, openMinuses_concat_sign hsign]
    · rw [if_neg hsign, openMinuses_concat hsign]
      split <;> rfl

end Calculator
