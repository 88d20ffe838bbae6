import Calculator.Proofs.Displacement
import Calculator.Proofs.Machine.Prefix
import Calculator.Proofs.Source
import Calculator.Proofs.Tree

/-!
# Terms appended to a source

A sign after an operand settles all that is in front of it, just as the closing marker
does, and leaves the machine with nothing but the value so far and the sign.  A term behind
the sign is then read as if it stood alone, with the sum waiting for its value.

Main results:

- Theorem `Machine.run_term`: a term behind a sign is read as a term that stands alone.
- Theorem `Machine.evaluate_append_sign_of_ok`: a sign behind a value waits with the value.
- Theorem `Machine.evaluate_append_sign_of_error`: a failure is the same in front of a sign.
- Theorem `evaluate_append_term`: all three, for the evaluation of a source.
-/

namespace Calculator

/-- No token is a sign between two terms. -/
def IsSingleTerm (tokens : List Token) : Prop :=
  ∀ i < tokens.length, ¬ BinarySignAt tokens i

instance (tokens : List Token) : Decidable (IsSingleTerm tokens) :=
  inferInstanceAs (Decidable (∀ i < tokens.length, ¬ BinarySignAt tokens i))

/-- No token of a single term is a sign after the tokens in front of it. -/
theorem IsSingleTerm.not_isBinarySign {read others : List Token} {token : Token}
    (hterm : IsSingleTerm (read ++ token :: others)) : ¬ IsBinarySign read token := by
  intro hsign
  apply hterm read.length (by simp)
  exact ⟨token, by simp, by simpa using hsign⟩

namespace Machine

variable {nestingLimit : Option Nat} {sum : Option Pending} {position : Nat}

/-! ## The pending sum within a term -/

/-- The state with another pending sum. -/
def State.withSum (sum : Option Pending) : State → State
  | start => start
  | operand _ below top => operand sum below top
  | operator _ below value => operator sum below value
  | done value => done value

/-- The start is left for good. -/
theorem Control.after?_ne_start (control : Control) (kind : Token.Kind) :
    control.after? kind ≠ some .start := by
  cases control <;> cases kind <;> simp [after?]

/-- Only a number is followed by an operator. -/
theorem Control.kind_eq_number {control : Control} {kind : Token.Kind} {depth : Nat}
    (hafter : control.after? kind = some (.operator depth)) : kind = .number := by
  cases control <;> cases kind <;> simp [after?] at hafter ⊢

section Step

variable {token : Token}

/-- In the place of an operand, no token looks at the pending sum. -/
theorem stepOperand_withSum (sum' : Option Pending) (below : List (Option Pending))
    (top : Option Pending) :
    stepOperand nestingLimit sum below top position token =
      State.withSum sum <$> stepOperand nestingLimit sum' below top position token := by
  cases hkind : token.kind with
  | minus =>
      by_cases hroom : nestingLimit.all (below.length < ·) = true
      · rw [stepOperand_minus hkind hroom, stepOperand_minus hkind hroom]
        rfl
      · rw [stepOperand_tooDeep hkind hroom, stepOperand_tooDeep hkind hroom]
        rfl
  | number =>
      rw [stepOperand_number hkind, stepOperand_number hkind, map_bind]
      apply bind_congr
      intro value
      rw [map_bind]
      rfl
  | plus => simp only [stepOperand, hkind]; rfl
  | star => simp only [stepOperand, hkind]; rfl
  | slash => simp only [stepOperand, hkind]; rfl
  | endOfInput => simp only [stepOperand, hkind]; rfl

/-- Behind an operand, only a token that stops the product looks at the pending sum. -/
theorem stepOperator_withSum (sum' : Option Pending) (below : List (Option Pending))
    (value : Int64) (hgoes : Level.product.follow token.kind ≠ .stop) :
    stepOperator sum below value position token =
      State.withSum sum <$> stepOperator sum' below value position token := by
  cases hkind : token.kind <;> rw [hkind] at hgoes <;> simp only [stepOperator, hkind]
  case star => rfl
  case slash => rfl
  case number => rfl
  all_goals exact absurd rfl hgoes

/-- A step within a term does not look at the pending sum. -/
theorem step_withSum {state : State} (hstart : state.control ≠ .start)
    (hgoes : ∀ depth, state.control = .operator depth →
      Level.product.follow token.kind ≠ .stop) :
    step nestingLimit (state.withSum sum) position token =
      State.withSum sum <$> step nestingLimit state position token := by
  cases state with
  | start => exact absurd rfl hstart
  | operand sum' below top => exact stepOperand_withSum sum' below top
  | operator sum' below value => exact stepOperator_withSum sum' below value (hgoes _ rfl)
  | done value => rfl

end Step

/-- Within a term the pending sum stays as it is. -/
theorem feed_withSum {state : State} {read tokens : List Token}
    (hstart : state.control ≠ .start)
    (hnumber : ∀ depth, state.control = .operator depth → FollowsNumber read)
    (hterm : IsSingleTerm (read ++ tokens)) (hunclosed : Unclosed tokens) :
    feed nestingLimit (state.withSum sum) position tokens =
      State.withSum sum <$> feed nestingLimit state position tokens := by
  induction tokens generalizing state position read with
  | nil => rfl
  | cons token others ih =>
      have hgoes : ∀ depth, state.control = .operator depth →
          Level.product.follow token.kind ≠ .stop := by
        intro depth hcontrol hstop
        have hsign := hterm.not_isBinarySign
        cases hkind : token.kind <;> rw [hkind] at hstop <;> cases hstop
        case plus => exact hsign (.inl hkind)
        case minus => exact hsign (.inr ⟨hkind, hnumber depth hcontrol⟩)
        case endOfInput => exact hunclosed token (by simp) hkind
      rw [feed_cons, feed_cons, step_withSum hstart hgoes]
      cases hstep : step nestingLimit state (position + 1) token with
      | error cause => rfl
      | ok next =>
          have hafter := control_of_step hstep
          have hnext : next.control ≠ .start := by
            intro hcontrol
            rw [hcontrol] at hafter
            exact Control.after?_ne_start _ _ hafter
          have hnumber' : ∀ depth, next.control = .operator depth →
              FollowsNumber (read ++ [token]) := by
            intro depth hcontrol
            rw [hcontrol] at hafter
            exact followsNumber_concat.mpr (Control.kind_eq_number hafter)
          exact ih hnext hnumber' (by simpa using hterm)
            fun token' htoken => hunclosed token' (by simp [htoken])

/-! ## The state behind an operand -/

section Unclosed

variable {tokens : List Token}

/-- In front of anything but the closing marker, a run starts with an operand. -/
theorem feed_start (hne : tokens ≠ []) (hunclosed : Unclosed tokens) :
    feed nestingLimit .start position tokens =
      feed nestingLimit (.operand none [] none) position tokens := by
  rcases List.exists_cons_of_ne_nil hne with ⟨token, others, rfl⟩
  rw [feed_cons, feed_cons, step, step, if_neg (hunclosed token (by simp))]

/-- Behind some tokens without a marker, the machine expects an operand or an operator. -/
theorem operand_or_operator_of_feed {last : State} (hne : tokens ≠ [])
    (hunclosed : Unclosed tokens) (hfeed : feed nestingLimit .start position tokens = .ok last) :
    (∃ sum below top, last = .operand sum below top) ∨
      ∃ sum below value, last = .operator sum below value := by
  have hfits := fits_of_feed hfeed
  cases last with
  | start => exact absurd hfits hne
  | operand sum below top => exact .inl ⟨sum, below, top, rfl⟩
  | operator sum below value => exact .inr ⟨sum, below, value, rfl⟩
  | done value => exact absurd hunclosed hfits

end Unclosed

section Ends

variable {below : List (Option Pending)} {others : List Token}

/-- A sign settles what is in front of it, and waits with the value. -/
theorem run_operator_sign {op : Operator} (hlevel : op.level = .sum) (value : Int64) :
    run nestingLimit (.operator sum below value) position (op.token :: others) =
      (settle sum below value >>= fun total =>
        run nestingLimit (.operand (some ⟨total, op⟩) [] none) (position + 1) others) := by
  rw [run_cons]
  cases op <;> cases hlevel <;>
    simp only [step, stepOperator, Operator.token, Operator.kind, bind_assoc] <;> rfl

/-- The closing marker cannot stand where an operand is expected. -/
theorem run_operand_end (top : Option Pending) :
    run nestingLimit (.operand sum below top) position [Token.endOfInput] =
      .error (.grammatical (.unexpectedToken "" (position + 1))) :=
  rfl

/-- A plus cannot stand where an operand is expected. -/
theorem run_operand_plus (top : Option Pending) :
    run nestingLimit (.operand sum below top) position (Operator.add.token :: others) =
      .error (.grammatical (.unexpectedToken "+" (position + 1))) :=
  rfl

end Ends

/-! ## Terms behind a sign -/

section Append

variable {front tokens others : List Token} {op : Operator}

/-- At its end, a term behind a sign is combined with the sum in front of the sign. -/
theorem run_withSum_end (pending : Pending) {last : State} (hnone : last = last.withSum none)
    (hlast : (∃ sum below top, last = .operand sum below top) ∨
      ∃ sum below value, last = .operator sum below value) :
    run nestingLimit (last.withSum (some pending)) position [Token.endOfInput] =
      (run nestingLimit last position [Token.endOfInput] >>= combine (some pending)) := by
  rcases hlast with ⟨sum, below, top, rfl⟩ | ⟨sum, below, value, rfl⟩
  · rw [State.withSum, run_operand_end, run_operand_end]
    rfl
  · obtain rfl : sum = none := by cases hnone; rfl
    rw [State.withSum, run_operator_end, run_operator_end, settle, settle, bind_assoc]
    rfl

/-- A term behind a sign is read as a term that stands alone, and its value is combined with
the sum in front of the sign. -/
theorem run_term (pending : Pending) (hne : tokens ≠ []) (hunclosed : Unclosed tokens)
    (hterm : IsSingleTerm tokens) :
    run nestingLimit (.operand (some pending) [] none) position
        (tokens ++ [Token.endOfInput]) =
      (run nestingLimit .start position (tokens ++ [Token.endOfInput]) >>=
        combine (some pending)) := by
  have hwithSum : ∀ sum, feed nestingLimit (.operand sum [] none) position tokens =
      State.withSum sum <$> feed nestingLimit .start position tokens := by
    intro sum
    have hstart : (State.operand none [] none).control ≠ .start := by simp [State.control]
    have hterm' : IsSingleTerm ([] ++ tokens) := hterm
    rw [feed_start hne hunclosed]
    exact feed_withSum hstart (by simp [State.control]) hterm' hunclosed
  rw [run_append, run_append, hwithSum]
  cases hfeed : feed nestingLimit .start position tokens with
  | error cause => rfl
  | ok last =>
    -- a term that stands alone has no sum in front of it
    have hnone : last = last.withSum none := by
      have hsame := hwithSum none
      rw [← feed_start hne hunclosed, hfeed] at hsame
      exact Except.ok.inj hsame
    exact run_withSum_end pending hnone (operand_or_operator_of_feed hne hunclosed hfeed)

/-- A term behind a sum with a value is combined with the value. -/
theorem evaluate_append_sign_of_ok {total : Int64} (hfront : front ≠ [])
    (hunclosed : Unclosed front)
    (htotal : evaluate nestingLimit (front ++ [Token.endOfInput]) = .ok total)
    (hlevel : op.level = .sum) (hne : tokens ≠ []) (hunclosed' : Unclosed tokens)
    (hterm : IsSingleTerm tokens) :
    evaluate nestingLimit (front ++ op.token :: (tokens ++ [Token.endOfInput])) =
      ((evaluate nestingLimit (tokens ++ [Token.endOfInput])).mapError
          (Failure.behind (front.length + 1)) >>= combine (some ⟨total, op⟩)) := by
  cases hfeed : feed nestingLimit .start 0 front with
  | error cause =>
      rw [evaluate_append_of_feed_error hfeed] at htotal
      cases htotal
  | ok last =>
    rw [evaluate_append_of_feed hfeed] at htotal ⊢
    rcases operand_or_operator_of_feed hfront hunclosed hfeed with
      ⟨sum, below, top, rfl⟩ | ⟨sum, below, value, rfl⟩
    · rw [run_operand_end] at htotal
      cases htotal
    · rw [run_operator_end] at htotal
      have hsettled := @run_operator_sign nestingLimit sum front.length below
        (tokens ++ [Token.endOfInput]) op hlevel value
      rw [htotal] at hsettled
      rw [hsettled, evaluate, ← run_behind, Nat.zero_add]
      exact run_term _ hne hunclosed' hterm

/-- A failure in front of a sign is the failure of the whole, unless an operand is missing. -/
theorem evaluate_append_sign_of_error {cause : Failure} (hfront : front ≠ [])
    (hunclosed : Unclosed front)
    (herror : evaluate nestingLimit (front ++ [Token.endOfInput]) = .error cause)
    (hcause : cause ≠ .grammatical (.unexpectedToken "" (front.length + 1)))
    (hlevel : op.level = .sum) :
    evaluate nestingLimit (front ++ op.token :: others) = .error cause := by
  cases hfeed : feed nestingLimit .start 0 front with
  | error cause' =>
      rw [evaluate_append_of_feed_error hfeed] at herror ⊢
      exact herror
  | ok last =>
    rw [evaluate_append_of_feed hfeed] at herror ⊢
    rcases operand_or_operator_of_feed hfront hunclosed hfeed with
      ⟨sum, below, top, rfl⟩ | ⟨sum, below, value, rfl⟩
    · rw [run_operand_end] at herror
      exact absurd (Except.error.inj herror).symm hcause
    · rw [run_operator_end] at herror
      rw [run_operator_sign hlevel, herror]
      rfl

/-- Where an operand is missing at the end, it is missing in front of a plus. -/
theorem evaluate_append_plus_of_missing (hfront : front ≠ []) (hunclosed : Unclosed front)
    (hmissing : evaluate nestingLimit (front ++ [Token.endOfInput]) =
      .error (.grammatical (.unexpectedToken "" (front.length + 1)))) :
    evaluate nestingLimit (front ++ Operator.add.token :: others) =
      .error (.grammatical (.unexpectedToken "+" (front.length + 1))) := by
  cases hfeed : feed nestingLimit .start 0 front with
  | error cause =>
      -- a token in front of the end would be named with its own position
      rw [evaluate_append_of_feed_error hfeed] at hmissing
      rw [Except.error.inj hmissing] at hfeed
      rcases feed_eq_error_iff.mp hfeed with ⟨i, token, middle, htoken, -, hstep⟩
      have hi : i < front.length := (List.getElem?_eq_some_iff.mp htoken).1
      have hposition := (step_eq_unexpectedToken_iff.mp hstep).2.2
      omega
  | ok last =>
    rw [evaluate_append_of_feed hfeed] at hmissing ⊢
    rcases operand_or_operator_of_feed hfront hunclosed hfeed with
      ⟨sum, below, top, rfl⟩ | ⟨sum, below, value, rfl⟩
    · exact run_operand_plus top
    · rw [run_operator_end] at hmissing
      rcases settle_eq_error hmissing with ⟨error, herror⟩
      cases herror

end Append

end Machine

/-! ## Terms appended to a source -/

section Sources

variable {s t : String} {op : Operator}

theorem toList_append_operator :
    (s ++ op.symbol.toString ++ t).toList = s.toList ++ op.symbol :: t.toList := by
  simp

/-- The pieces of two sources with an operator between them. -/
theorem pieces_append_operator :
    pieces (s ++ op.symbol.toString ++ t) = pieces s ++ op.token :: pieces t := by
  have hjunction : ∀ c ∈ s.toList.getLast?, ∀ d ∈ (op.symbol :: t.toList).head?,
      (c.isDigit && d.isDigit) = false := by
    intro c _ d hd
    rw [← Option.some.inj hd, op.symbol_isDigit, Bool.and_false]
  rw [pieces, toList_append_operator, piecesOf_append hjunction,
    piecesOf_symbol op.ofSymbol?_symbol]
  rfl

/-- An operator between two sources is read by the machine between their pieces. -/
theorem evaluate_append_operator (hs : ∀ c ∈ s.toList, InAlphabet c)
    (ht : ∀ c ∈ t.toList, InAlphabet c) :
    evaluate (s ++ op.symbol.toString ++ t) =
      Machine.evaluate (some 256)
        (pieces s ++ op.token :: (pieces t ++ [Token.endOfInput])) := by
  have hop : InAlphabet op.symbol := inAlphabet_of_ofSymbol? op.ofSymbol?_symbol
  have hall : ∀ c ∈ (s ++ op.symbol.toString ++ t).toList, InAlphabet c := by
    rw [toList_append_operator, List.forall_mem_append, List.forall_mem_cons]
    exact ⟨hs, hop, ht⟩
  rw [evaluate_eq_of_inAlphabet hall, pieces_append_operator, List.append_assoc,
    List.cons_append]

end Sources

/-- Appending a term composes.  Behind a source with a value, a term that follows a sign is
evaluated as it is alone, with its positions behind the tokens in front of it, and its value
is added to that of the source or subtracted from it.  A source that fails otherwise than at
its end fails in the same way in front of a sign, and where it lacks an operand at its end, a
plus is out of place. -/
theorem evaluate_append_term (s : String) (hs : ∀ c ∈ s.toList, InAlphabet c)
    (hsome : ∃ c ∈ s.toList, c ≠ ' ') :
    (∀ op : Operator, op.level = .sum → ∀ a t, evaluate s = .ok a →
      (∀ c ∈ t.toList, InAlphabet c) → (∃ c ∈ t.toList, c ≠ ' ') → IsSingleTerm (pieces t) →
      evaluate (s ++ op.symbol.toString ++ t) =
        match evaluate t with
        | .ok b => (op.apply a b).mapError .arithmetic
        | .error cause => .error (cause.behind ((pieces s).length + 1))) ∧
    (∀ op : Operator, op.level = .sum → ∀ cause t, evaluate s = .error cause →
      cause ≠ .grammatical (.unexpectedToken "" ((pieces s).length + 1)) →
      (∀ c ∈ t.toList, InAlphabet c) →
      evaluate (s ++ op.symbol.toString ++ t) = .error cause) ∧
    (∀ t, evaluate s = .error (.grammatical (.unexpectedToken "" ((pieces s).length + 1))) →
      (∀ c ∈ t.toList, InAlphabet c) →
      evaluate (s ++ "+" ++ t) =
        .error (.grammatical (.unexpectedToken "+" ((pieces s).length + 1)))) := by
  have hfront : pieces s ≠ [] := pieces_ne_nil hs hsome
  have hunclosed : Unclosed (pieces s) := unclosed_pieces hs
  have hsource := evaluate_eq_of_inAlphabet hs
  refine ⟨?_, ?_, ?_⟩
  · intro op hlevel a t hvalue ht htsome hterm
    rw [hsource] at hvalue
    rw [evaluate_append_operator hs ht, evaluate_eq_of_inAlphabet ht,
      Machine.evaluate_append_sign_of_ok hfront hunclosed hvalue hlevel
        (pieces_ne_nil ht htsome) (unclosed_pieces ht) hterm]
    cases Machine.evaluate (some 256) (pieces t ++ [Token.endOfInput]) <;> rfl
  · intro op hlevel cause t herror hcause ht
    rw [hsource] at herror
    rw [evaluate_append_operator hs ht]
    exact Machine.evaluate_append_sign_of_error hfront hunclosed herror hcause hlevel
  · intro t hmissing ht
    rw [hsource] at hmissing
    have hplus := @evaluate_append_operator s t .add hs ht
    rw [Machine.evaluate_append_plus_of_missing hfront hunclosed hmissing] at hplus
    exact hplus

/-- A product and a broken term behind a difference, and a plus behind a division by zero and
behind a missing operand. -/
theorem evaluate_append_term_to_difference :
    evaluate ("2-7" ++ "-" ++ "3*-4") = .ok 7 ∧
      evaluate ("2-7" ++ "-" ++ "3 4") = .error (.grammatical (.unexpectedToken "4" 6)) ∧
      evaluate ("2/0" ++ "+" ++ "1") = .error (.arithmetic .divisionByZero) ∧
      evaluate ("2-" ++ "+" ++ "1") = .error (.grammatical (.unexpectedToken "+" 3)) := by
  have hdifference : evaluate "2-7" = .ok (-5) :=
    (evaluate_eq_of_inAlphabet (by simp [InAlphabet])).trans rfl
  have hproduct : evaluate "3*-4" = .ok (-12) :=
    (evaluate_eq_of_inAlphabet (by simp [InAlphabet])).trans rfl
  have hbroken : evaluate "3 4" = .error (.grammatical (.unexpectedToken "4" 2)) :=
    (evaluate_eq_of_inAlphabet (by simp [InAlphabet])).trans rfl
  have hdivision : evaluate "2/0" = .error (.arithmetic .divisionByZero) :=
    (evaluate_eq_of_inAlphabet (by simp [InAlphabet])).trans rfl
  have hmissing : evaluate "2-" = .error (.grammatical (.unexpectedToken "" 3)) :=
    (evaluate_eq_of_inAlphabet (by simp [InAlphabet])).trans rfl
  have happend := (evaluate_append_term "2-7" (by simp [InAlphabet]) (by simp)).1 .sub rfl (-5)
  refine ⟨?_, ?_, ?_, ?_⟩
  · have hwhole := happend "3*-4" hdifference (by simp [InAlphabet]) (by simp) (by decide)
    rw [hproduct] at hwhole
    exact hwhole
  · have hwhole := happend "3 4" hdifference (by simp [InAlphabet]) (by simp) (by decide)
    rw [hbroken] at hwhole
    exact hwhole
  · exact (evaluate_append_term "2/0" (by simp [InAlphabet]) (by simp)).2.1 .add rfl
      (.arithmetic .divisionByZero) "1" hdivision (by simp) (by simp [InAlphabet])
  · exact (evaluate_append_term "2-" (by simp [InAlphabet]) (by simp)).2.2 "1" hmissing
      (by simp [InAlphabet])

end Calculator
