import Calculator.Proofs.Literal
import Calculator.Proofs.Messages
import Calculator.Proofs.Runs
import Calculator.Proofs.Source

/-!
# Printed values

A value is printed in decimal, with a minus in front if it is negative.  As an expression, this
is a number or the negation of one, and it has the value that was printed.  The least value is
the exception, as its magnitude has no literal; it is the value of other expressions.

Main results:

- Theorem `evaluate_toString`: a printed value evaluates to itself, unless it is the least.
- Theorem `exists_evaluate_eq_ok`: every value is that of a source.
- Theorem `CommandLine.showText_printed`: a printed line is answered with the same line.
- Theorem `CommandLine.printed_values_return`: all of this, for evaluations and for runs.
-/

namespace Calculator

/-! ## Decimal texts -/

/-- The characters of a number may stand in an expression. -/
theorem inAlphabet_of_isDecimalChar {c : Char} (hc : IsDecimalChar c) : InAlphabet c := by
  rcases hc with hdigit | rfl
  · exact .inl hdigit
  · simp [InAlphabet]

/-- The digits of a number are read to the value that denotes it. -/
theorem read_toString_iff {m : Nat} {value : Int64} :
    Numeral.read (toString m) = .ok value ↔ value.toInt = m := by
  have hrange := inRange_iff.mp (inRange_toInt value)
  rw [Numeral.read_eq_ok_iff_of_isNumeral (isNumeral_toString m), decimal_toString,
    Numeral.positiveLimit_eq]
  omega

/-! ## A number, and the negation of one -/

section Evaluate

variable {text : String} {value : Int64}

/-- A number is one piece. -/
theorem pieces_of_isNumeral (hnumeral : IsNumeral text) : pieces text = [⟨.number, text⟩] := by
  rw [pieces, piecesOf_digits hnumeral.1 hnumeral.2, String.ofList_toList]

theorem inAlphabet_of_isNumeral (hnumeral : IsNumeral text) : ∀ c ∈ text.toList, InAlphabet c :=
  fun c hc => .inl (hnumeral.2 c hc)

/-- A number in front of the closing marker settles with its value. -/
theorem Machine.run_number_end {limit : Option Nat} {sum : Option Pending}
    {below : List (Option Pending)} {position : Nat} (hread : Numeral.read text = .ok value) :
    run limit (.operand sum below none) position [⟨.number, text⟩, Token.endOfInput] =
      settle sum below value := by
  have hliteral : literal text (position + 1) = .ok value := by rw [literal, hread]
  rw [run_cons, step, stepOperand_number rfl, hliteral]
  exact run_operator_end value

/-- A number is evaluated to its own value. -/
theorem evaluate_of_read (hnumeral : IsNumeral text) (hread : Numeral.read text = .ok value) :
    evaluate text = .ok value := by
  rw [evaluate_eq_of_inAlphabet (inAlphabet_of_isNumeral hnumeral), pieces_of_isNumeral hnumeral]
  have hstart : Machine.run (some 256) .start 0 [⟨.number, text⟩, Token.endOfInput] =
      Machine.run (some 256) (.operand none [] none) 0 [⟨.number, text⟩, Token.endOfInput] := by
    rw [Machine.run_cons, Machine.run_cons, Machine.step, Machine.step, if_neg (by simp)]
  exact hstart.trans (Machine.run_number_end hread)

/-- A minus in front of a number negates its value. -/
theorem evaluate_minus_of_read (hnumeral : IsNumeral text)
    (hread : Numeral.read text = .ok value) :
    evaluate ("-" ++ text) = (negate value).mapError .arithmetic := by
  have hall : ∀ c ∈ ("-" ++ text).toList, InAlphabet c := by
    rw [String.toList_append]
    exact List.forall_mem_append.mpr ⟨by simp [InAlphabet], inAlphabet_of_isNumeral hnumeral⟩
  have hpieces : pieces ("-" ++ text) = [⟨.minus, "-"⟩, ⟨.number, text⟩] := by
    rw [pieces, String.toList_append]
    show piecesOf ('-' :: text.toList) = _
    rw [piecesOf_symbol rfl]
    exact congrArg _ (pieces_of_isNumeral hnumeral)
  rw [evaluate_eq_of_inAlphabet hall, hpieces]
  show Machine.run (some 256) (.operand none [none] none) 1 [⟨.number, text⟩, Token.endOfInput] = _
  rw [Machine.run_number_end hread]
  show Machine.settle none [none] value = _
  rw [Machine.settle, Machine.close]
  cases negate value <;> rfl

/-- A printed value evaluates to itself, unless it is the least. -/
theorem evaluate_toString (hleast : value ≠ Int64.minValue) :
    evaluate (toString value.toInt) = .ok value := by
  have hrange := inRange_iff.mp (inRange_toInt value)
  have hmin : value.toInt ≠ -9223372036854775808 := fun hsame =>
    hleast (Int64.toInt_inj.mp hsame)
  by_cases hsign : 0 ≤ value.toInt
  · rcases Int.eq_ofNat_of_zero_le hsign with ⟨m, hm⟩
    rw [hm, toString_natCast]
    exact evaluate_of_read (isNumeral_toString m) (read_toString_iff.mpr hm)
  · rcases Int.eq_ofNat_of_zero_le (show 0 ≤ -value.toInt by omega) with ⟨m, hm⟩
    have hvalue : value.toInt = -(m : Int) := by omega
    -- the magnitude has a literal, as the least value is excluded
    have hinside : InRange (m : Int) := inRange_iff.mpr (by omega)
    rcases exists_toInt_eq_iff.mpr hinside with ⟨magnitude, hmagnitude⟩
    have hnegate : negate magnitude = .ok value := by
      rw [negate_eq_sub, Operator.apply_eq_ok_iff]
      exact ⟨by simp, by simp [Operator.exact, hmagnitude, hvalue]⟩
    rw [hvalue, toString_neg_natCast (by omega),
      evaluate_minus_of_read (isNumeral_toString m) (read_toString_iff.mpr hmagnitude), hnegate]
    rfl

/-- The least value is printed, but its magnitude has no literal. -/
theorem evaluate_toString_minValue :
    evaluate (toString Int64.minValue.toInt) =
      .error (.grammatical (.literalTooLarge "9223372036854775808" 2)) := by
  have htext : toString Int64.minValue.toInt = "-9223372036854775808" := rfl
  rw [htext]
  exact (evaluate_eq_of_inAlphabet (by simp [InAlphabet])).trans rfl

/-- Every value is that of a source. -/
theorem exists_evaluate_eq_ok (value : Int64) : ∃ source, evaluate source = .ok value := by
  by_cases hleast : value = Int64.minValue
  · refine ⟨"-9223372036854775807-1", ?_⟩
    rw [hleast]
    exact (evaluate_eq_of_inAlphabet (by simp [InAlphabet])).trans rfl
  · exact ⟨_, evaluate_toString hleast⟩

end Evaluate

/-! ## Runs on what was printed -/

namespace CommandLine

section Runs

variable {readFile : String → Option ByteArray} {invocation : Invocation} {value : Int64}

/-- Of a printed line, the line end is dropped. -/
theorem dropLineEnds_printed (n : Int) : dropLineEnds (toString n ++ "\n") = toString n := by
  rw [dropLineEnds_append (by simp [isLineEnd])]
  exact dropLineEnds_of_last_not fun c hc => isLineEnd_of_inAlphabet
    (inAlphabet_of_isDecimalChar (isDecimalChar_of_mem_toString (List.mem_of_getLast? hc)))

/-- A printed line is answered with the same line, unless it shows the least value. -/
theorem showText_printed (hleast : value ≠ Int64.minValue) :
    showText false (toString value.toInt ++ "\n") = ⟨0, toString value.toInt ++ "\n", ""⟩ := by
  show showValue (dropLineEnds _) = _
  rw [dropLineEnds_printed, showValue, evaluate_toString hleast]
  rfl

/-- An expression is answered with success only if a value is shown. -/
theorem exists_of_status_showValue {expression : String}
    (hsuccess : (showValue expression).status = 0) :
    ∃ value : Int64, showValue expression = ⟨0, toString value.toInt ++ "\n", ""⟩ := by
  unfold showValue at hsuccess ⊢
  cases hanswer : evaluate expression with
  | ok value => exact ⟨value, rfl⟩
  | error cause =>
      rw [hanswer] at hsuccess
      cases hsuccess

/-- A run that succeeds and does not list tokens prints a value. -/
theorem exists_printed (hvalue : invocation.listTokens = false)
    (hsuccess : (invocation.respond readFile).status = 0) :
    ∃ value : Int64, invocation.respond readFile = ⟨0, toString value.toInt ++ "\n", ""⟩ := by
  cases htext : invocation.text? readFile with
  | none =>
      rw [Invocation.respond, htext] at hsuccess
      cases hsuccess
  | some text =>
      have hrespond : invocation.respond readFile = showValue (dropLineEnds text) := by
        rw [Invocation.respond, htext, hvalue]
        rfl
      rw [hrespond] at hsuccess ⊢
      exact exists_of_status_showValue hsuccess

/-- A run on accepted arguments is one on what they ask for. -/
theorem respond_of_ofArguments {arguments : List String}
    (harguments : Request.ofArguments arguments = .ok (.invoke invocation)) :
    respond readFile arguments = invocation.respond readFile := by
  rw [respond, respondBy, readArguments, harguments]
  rfl

end Runs

/-- A printed value is an expression of that value, unless it is the least.  So the line that a
run printed is answered with the same line, when it stands in a file that another run is to
read.  The least value is printed, but its magnitude has no literal; still every value is that of
a source. -/
theorem printed_values_return :
    (∀ value : Int64, value ≠ Int64.minValue → evaluate (toString value.toInt) = .ok value) ∧
    (∀ readFile arguments invocation,
      Request.ofArguments arguments = .ok (.invoke invocation) → invocation.listTokens = false →
      (respond readFile arguments).status = 0 →
      ∃ value : Int64,
        respond readFile arguments = ⟨0, toString value.toInt ++ "\n", ""⟩ ∧
        (value ≠ Int64.minValue → ∀ readFile' arguments' name,
          Request.ofArguments arguments' = .ok (.invoke (.ofFile false name)) →
          readFile' name = some (respond readFile arguments).stdout.toUTF8 →
          respond readFile' arguments' = respond readFile arguments)) ∧
    evaluate (toString Int64.minValue.toInt) =
      .error (.grammatical (.literalTooLarge "9223372036854775808" 2)) ∧
    ∀ value, ∃ source, evaluate source = .ok value := by
  refine ⟨fun _ => evaluate_toString, ?_, evaluate_toString_minValue, exists_evaluate_eq_ok⟩
  intro readFile arguments invocation harguments hvalue hsuccess
  rw [respond_of_ofArguments harguments] at hsuccess ⊢
  rcases exists_printed hvalue hsuccess with ⟨value, hprinted⟩
  refine ⟨value, hprinted, fun hleast readFile' arguments' name harguments' hfile => ?_⟩
  rw [hprinted] at hfile ⊢
  rw [respond_of_ofArguments harguments', Invocation.respond_ofFile hfile,
    showText_printed hleast]

/-- A negative difference is printed, and the line is printed again from a file. -/
theorem printed_values_return_from_difference :
    evaluate (toString (-3 : Int64).toInt) = .ok (-3) ∧
      respond (fun _ => none) ["--", "2 - 5"] = ⟨0, "-3\n", ""⟩ ∧
      respond (fun _ => some "-3\n".toUTF8) ["-f", "difference"] = ⟨0, "-3\n", ""⟩ := by
  have harguments : Request.ofArguments ["--", "2 - 5"] =
      .ok (.invoke (.ofArgument false "2 - 5")) := rfl
  have hfile : Request.ofArguments ["-f", "difference"] =
      .ok (.invoke (.ofFile false "difference")) := rfl
  have hevaluate : evaluate "2 - 5" = .ok (-3) :=
    (evaluate_eq_of_inAlphabet (by simp [InAlphabet])).trans rfl
  have hrun : respond (fun _ => none) ["--", "2 - 5"] = ⟨0, "-3\n", ""⟩ := by
    rw [respond_of_ofArguments harguments]
    show showValue "2 - 5" = _
    rw [showValue, hevaluate]
    rfl
  rcases printed_values_return.2.1 (fun _ => none) _ _ harguments rfl (by rw [hrun]) with
    ⟨value, hprinted, hreturn⟩
  have hvalue : value.toInt = -3 := by
    have hline : "-3" ++ "\n" = toString value.toInt ++ "\n" :=
      congrArg Response.stdout (hrun.symm.trans hprinted)
    exact (toString_int_inj.mp ((String.append_left_inj "\n").mp hline)).symm
  have hleast : value ≠ Int64.minValue := by
    rintro rfl
    cases hvalue
  rw [hrun] at hreturn
  exact ⟨printed_values_return.1 (-3) (by decide), hrun,
    hreturn hleast _ _ "difference" hfile rfl⟩

end CommandLine

end Calculator
