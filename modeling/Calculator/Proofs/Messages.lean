import Calculator.CommandLine.Response
import Calculator.Proofs.Decimal
import Calculator.Proofs.Stranger

/-!
# What messages tell

A message shows the text and the numbers of its failure as they are, between fixed wordings.
A text may hold anything, also what looks like the rest of a message, and still nothing is
lost: the opening words tell which sort of failure it is, and the number in front of the final
point is found from the right, where it ends at the last space.  What remains between the two
is the text.

Main results:

- Theorem `append_decimal_inj`: a number at the end of a text is told from what is in front.
- Theorem `Failure.ofMessage?_message`: a message tells the sort of its failure.
- Theorem `Failure.message_injective`: a message tells all of its failure.
- Theorem `CommandLine.stderr_respondBy_eq_iff`: a run writes the message of a breakdown exactly
  if it breaks down that way, as long as other command lines are not answered with such a message.
- Theorem `CommandLine.stderr_respond_eq_iff`: so does a run of the program.
-/

namespace Calculator

/-! ## Numbers at the end of a text -/

/-- The characters of which a number is written. -/
def IsDecimalChar (c : Char) : Prop :=
  c.isDigit = true ∨ c = '-'

/-- A number is written in such characters. -/
theorem isDecimalChar_of_mem_toString {n : Int} {c : Char} (hc : c ∈ (toString n).toList) :
    IsDecimalChar c := by
  cases n with
  | ofNat m =>
      rw [Int.ofNat_eq_natCast, toString_natCast] at hc
      exact .inl ((isNumeral_toString m).2 c hc)
  | negSucc m =>
      rw [toString_negSucc, String.toList_append, List.mem_append] at hc
      rcases hc with hsign | hdigits
      · exact .inr (List.mem_singleton.mp hsign)
      · exact .inl ((isNumeral_toString (m + 1)).2 c hdigits)

theorem not_isDecimalChar_space : ¬ IsDecimalChar ' ' := by
  simp [IsDecimalChar]

/-- The text ends in a space. -/
def EndsInSpace (text : String) : Prop :=
  text.toList.getLast? = some ' '

theorem EndsInSpace.append {text : String} (hspace : EndsInSpace text) (front : String) :
    EndsInSpace (front ++ text) := by
  unfold EndsInSpace at hspace ⊢
  rw [String.toList_append, List.getLast?_append, hspace]
  rfl

/-- In a text that ends in a space, no characters of a number stand at the end. -/
theorem eq_nil_of_append_decimal {front middle : List Char}
    (hspace : (front ++ middle).getLast? = some ' ')
    (hmiddle : ∀ c ∈ middle, IsDecimalChar c) : middle = [] := by
  cases hlast : middle.getLast? with
  | none => exact List.getLast?_eq_none_iff.mp hlast
  | some c =>
      rw [List.getLast?_append, hlast] at hspace
      cases hspace
      exact absurd (hmiddle _ (List.mem_of_getLast? hlast)) not_isDecimalChar_space

/-- A number at the end of a text, behind a space and in front of a point, is told from what is
in front of it. -/
theorem append_decimal_inj {front front' : String} {n n' : Int}
    (hspace : EndsInSpace front) (hspace' : EndsInSpace front') :
    front ++ toString n ++ "." = front' ++ toString n' ++ "." ↔ front = front' ∧ n = n' := by
  constructor
  · intro h
    have hlists : front.toList ++ (toString n).toList =
        front'.toList ++ (toString n').toList := by
      rw [← String.toList_append, ← String.toList_append, (String.append_left_inj ".").mp h]
    have hdecimal : ∀ (m : Int), ∀ c ∈ (toString m).toList, IsDecimalChar c :=
      fun _ _ => isDecimalChar_of_mem_toString
    have hfront : front.toList = front'.toList := by
      -- neither front can reach into the number behind the other
      rcases List.append_eq_append_iff.mp hlists with ⟨middle, hlong, hnumber⟩ |
        ⟨middle, hlong, hnumber⟩
      · unfold EndsInSpace at hspace'
        rw [hlong] at hspace'
        have hnil := eq_nil_of_append_decimal hspace'
          fun c hc => hdecimal n c (by rw [hnumber]; exact List.mem_append_left _ hc)
        rw [hlong, hnil, List.append_nil]
      · unfold EndsInSpace at hspace
        rw [hlong] at hspace
        have hnil := eq_nil_of_append_decimal hspace
          fun c hc => hdecimal n' c (by rw [hnumber]; exact List.mem_append_left _ hc)
        rw [hlong, hnil, List.append_nil]
    rw [hfront, List.append_cancel_left_eq] at hlists
    exact ⟨String.toList_inj.mp hfront, toString_int_inj.mp (String.toList_inj.mp hlists)⟩
  · rintro ⟨rfl, rfl⟩
    rfl

/-! ## The sorts of failures -/

/-- The sorts of failures, each with a wording of its own. -/
inductive Failure.Form where
  | character
  | token
  | ending
  | tooLarge
  | nesting
  | malformed
  | divisionByZero
  | overflow
deriving DecidableEq

/-- The sort of a failure. -/
def Failure.form : Failure → Form
  | lexical (.unexpectedCharacter _ _) => .character
  | grammatical (.unexpectedToken _ _) => .token
  | grammatical (.unexpectedEnd _) => .ending
  | grammatical (.literalTooLarge _ _) => .tooLarge
  | grammatical (.nestingTooDeep _) => .nesting
  | grammatical (.malformedLiteral _ _) => .malformed
  | arithmetic .divisionByZero => .divisionByZero
  | arithmetic (.overflow _ _ _) => .overflow

/-- The sort of failure that the first letters of a message tell. -/
def Failure.Form.ofMessage? : List Char → Option Form
  | 'U' :: 'n' :: 'e' :: 'x' :: 'p' :: 'e' :: 'c' :: 't' :: 'e' :: 'd' :: ' ' :: c :: _ =>
      if c = 'c' then some character
      else if c = 't' then some token
      else if c = 'e' then some ending
      else none
  | 'L' :: _ => some tooLarge
  | 'E' :: _ => some nesting
  | 'I' :: 'n' :: 'v' :: _ => some malformed
  | 'D' :: _ => some divisionByZero
  | 'I' :: 'n' :: 't' :: _ => some overflow
  | _ => none

/-- A message tells the sort of its failure. -/
theorem Failure.ofMessage?_message (cause : Failure) :
    Form.ofMessage? cause.message.toList = some cause.form := by
  rcases cause with ⟨_, _⟩ | (⟨_, _⟩ | _ | ⟨_, _⟩ | _ | ⟨_, _⟩) | (_ | ⟨_, _, _⟩)
  · show Form.ofMessage? ("Unexpected character: '" ++ _ ++ _ ++ _ ++ _).toList = some .character
    simp [Form.ofMessage?]
  · show Form.ofMessage? ("Unexpected token: '" ++ _ ++ _ ++ _ ++ _).toList = some .token
    simp [Form.ofMessage?]
  · show Form.ofMessage? ("Unexpected end of input at position: " ++ _ ++ _).toList = some .ending
    simp [Form.ofMessage?]
  · show Form.ofMessage? ("Literal '" ++ _ ++ _ ++ _ ++ _).toList = some .tooLarge
    simp [Form.ofMessage?]
  · show Form.ofMessage? ("Expression is nested too deeply at position: " ++ _ ++ _).toList =
      some .nesting
    simp [Form.ofMessage?]
  · show Form.ofMessage? ("Invalid number literal: '" ++ _ ++ _ ++ _ ++ _).toList =
      some .malformed
    simp [Form.ofMessage?]
  · show Form.ofMessage? "Division by zero.".toList = some .divisionByZero
    simp [Form.ofMessage?]
  · show Form.ofMessage? ("Integer overflow while trying to compute " ++ _ ++ _ ++ _ ++ _ ++ _ ++
      _).toList = some .overflow
    simp [Form.ofMessage?]

/-- A message starts with one of these letters. -/
theorem Failure.head?_message (cause : Failure) :
    ∃ c ∈ ['U', 'L', 'E', 'I', 'D'], cause.message.toList.head? = some c := by
  have hform := ofMessage?_message cause
  cases hmessage : cause.message.toList with
  | nil =>
      rw [hmessage] at hform
      cases hform
  | cons c rest =>
      rw [hmessage, Form.ofMessage?.eq_def] at hform
      refine ⟨c, ?_, rfl⟩
      split at hform <;> simp_all

/-! ## The parts of a message -/

/-- A text and a position between fixed wordings are told apart. -/
theorem positioned_inj {opening closing text text' : String} {position position' : Nat}
    (hspace : EndsInSpace closing)
    (hmessage : opening ++ text ++ closing ++ toString position ++ "." =
      opening ++ text' ++ closing ++ toString position' ++ ".") :
    text = text' ∧ position = position' := by
  rw [← toString_natCast, ← toString_natCast,
    append_decimal_inj (hspace.append _) (hspace.append _), String.append_left_inj,
    String.append_right_inj, Int.natCast_inj] at hmessage
  exact hmessage

/-- A position behind a fixed wording is told. -/
theorem position_inj {opening : String} {position position' : Nat}
    (hmessage : opening ++ toString position ++ "." = opening ++ toString position' ++ ".") :
    position = position' := by
  rw [String.append_left_inj, String.append_right_inj, ← toString_natCast, ← toString_natCast,
    toString_int_inj, Int.natCast_inj] at hmessage
  exact hmessage

/-- The two operands and the operator of an overflow are told apart. -/
theorem overflow_inj {opening : String} {lhs lhs' rhs rhs' : Int} {symbol symbol' : Char}
    (hmessage : opening ++ toString lhs ++ " " ++ symbol.toString ++ " " ++ toString rhs ++ "." =
      opening ++ toString lhs' ++ " " ++ symbol'.toString ++ " " ++ toString rhs' ++ ".") :
    lhs = lhs' ∧ symbol = symbol' ∧ rhs = rhs' := by
  have hlast : EndsInSpace " " := rfl
  rw [append_decimal_inj (hlast.append _) (hlast.append _), String.append_left_inj] at hmessage
  rcases hmessage with ⟨hfront, hrhs⟩
  -- the operator is one character, so it is found from the right as well
  have hlists : (opening ++ toString lhs ++ " ").toList ++ [symbol] =
      (opening ++ toString lhs' ++ " ").toList ++ [symbol'] := by
    rw [← String.toList_inj] at hfront
    simpa using hfront
  rcases List.append_inj' hlists rfl with ⟨hlhs, hsymbol⟩
  rw [String.toList_inj, String.append_left_inj, String.append_right_inj, toString_int_inj] at hlhs
  exact ⟨hlhs, List.singleton_inj.mp hsymbol, hrhs⟩

/-- Failures with the same message are of the same sort. -/
theorem Failure.form_eq_of_message_eq {cause cause' : Failure}
    (hmessage : cause.message = cause'.message) : cause.form = cause'.form := by
  apply Option.some.inj
  rw [← ofMessage?_message, ← ofMessage?_message, hmessage]

/-- A message tells all of its failure. -/
theorem Failure.message_injective : Function.Injective message := by
  intro cause cause' hmessage
  have hform := form_eq_of_message_eq hmessage
  rcases cause with ⟨c, _⟩ | (⟨_, _⟩ | _ | ⟨_, _⟩ | _ | ⟨_, _⟩) | (_ | ⟨_, _, _⟩) <;>
    rcases cause' with ⟨c', _⟩ | (⟨_, _⟩ | _ | ⟨_, _⟩ | _ | ⟨_, _⟩) | (_ | ⟨_, _, _⟩) <;>
    cases hform
  -- the two failures are of one sort, which gives the fixed wordings around their parts
  · rcases @positioned_inj "Unexpected character: '" "' at position: " _ _ _ _ rfl hmessage with
      ⟨hc, rfl⟩
    have hsame : c = c' := by simpa using String.toList_inj.mpr hc
    rw [hsame]
  · rcases @positioned_inj "Unexpected token: '" "' at position: " _ _ _ _ rfl hmessage with
      ⟨rfl, rfl⟩
    rfl
  · rw [@position_inj "Unexpected end of input at position: " _ _ hmessage]
  · rcases @positioned_inj "Literal '" "' is too large at position: " _ _ _ _ rfl hmessage with
      ⟨rfl, rfl⟩
    rfl
  · rw [@position_inj "Expression is nested too deeply at position: " _ _ hmessage]
  · rcases @positioned_inj "Invalid number literal: '" "' at position: " _ _ _ _ rfl hmessage with
      ⟨rfl, rfl⟩
    rfl
  · rfl
  · rcases @overflow_inj "Integer overflow while trying to compute " _ _ _ _ _ _ hmessage with
      ⟨hlhs, rfl, hrhs⟩
    rw [Int64.toInt_inj.mp hlhs, Int64.toInt_inj.mp hrhs]

/-! ## Runs that break down -/

namespace CommandLine

/-- What can keep an accepted command line from its answer. -/
inductive Breakdown where
  /-- The named file cannot be read, or is no text. -/
  | unreadable (name : String)
  /-- The expression has no value, or no tokens. -/
  | evaluation (cause : Failure)
deriving DecidableEq

/-- The wording of a breakdown. -/
def Breakdown.message : Breakdown → String
  | unreadable name =>
      "Failed to read the input file '" ++ name ++ "'. Perhaps this file does not exist?"
  | evaluation cause => cause.message

/-- What keeps an expression from its tokens or its value. -/
def failure? (listTokens : Bool) (expression : String) : Option Failure :=
  if listTokens then
    match tokenize expression with
    | .ok _ => none
    | .error error => some (.lexical error)
  else
    match evaluate expression with
    | .ok _ => none
    | .error cause => some cause

/-- What keeps a command line from its answer, if it is accepted and has none. -/
def breakdown? (reading : List String → Except String Request)
    (readFile : String → Option ByteArray) (arguments : List String) : Option Breakdown :=
  match reading arguments with
  | .ok (.invoke invocation) =>
      match invocation.text? readFile with
      | some text =>
          (failure? invocation.listTokens (dropLineEnds text)).map Breakdown.evaluation
      | none => some (.unreadable invocation.contents)
  | _ => none

/-- The text is the line that a run writes on breaking down in some way. -/
def IsBreakdownLine (text : String) : Prop :=
  ∃ breakdown : Breakdown, text = breakdown.message ++ "\n"

/-- What is said of a command line that is not accepted is not said of a breakdown. -/
def TellsMisuse (reading : List String → Except String Request) : Prop :=
  ∀ arguments usage, reading arguments = .error usage → ¬ IsBreakdownLine usage

theorem Breakdown.message_unreadable (name : String) :
    (unreadable name).message =
      "Failed to read the input file '" ++ name ++ "'. Perhaps this file does not exist?" :=
  rfl

/-- No failure has a message that starts like that of a file. -/
theorem Breakdown.head?_message_unreadable (name : String) :
    (unreadable name).message.toList.head? = some 'F' := by
  rw [message_unreadable]
  simp

/-- The message of a breakdown is not empty and starts unlike that of a usage error. -/
theorem Breakdown.head?_message (breakdown : Breakdown) :
    ∃ c ≠ 'e', breakdown.message.toList.head? = some c := by
  cases breakdown with
  | unreadable name => exact ⟨'F', by decide, head?_message_unreadable name⟩
  | evaluation cause =>
      rcases cause.head?_message with ⟨c, hc, hhead⟩
      refine ⟨c, ?_, hhead⟩
      rintro rfl
      simp at hc

/-- The message of a file that cannot be read is not that of a failure. -/
theorem Breakdown.message_unreadable_ne (name : String) (cause : Failure) :
    (unreadable name).message ≠ (evaluation cause).message := by
  intro hmessage
  rcases cause.head?_message with ⟨c, hc, hhead⟩
  have hfirst := head?_message_unreadable name
  rw [hmessage] at hfirst
  cases hhead.symm.trans hfirst
  simp at hc

/-- A message tells what kept a command line from its answer. -/
theorem Breakdown.message_injective : Function.Injective message := by
  intro breakdown breakdown' hmessage
  cases breakdown with
  | unreadable name =>
      cases breakdown' with
      | unreadable name' =>
          rw [message_unreadable, message_unreadable, String.append_left_inj,
            String.append_right_inj] at hmessage
          rw [hmessage]
      | evaluation cause => exact absurd hmessage (message_unreadable_ne name cause)
  | evaluation cause =>
      cases breakdown' with
      | unreadable name => exact absurd hmessage.symm (message_unreadable_ne name cause)
      | evaluation cause' => rw [Failure.message_injective hmessage]

/-- The wording of a usage error starts with a letter of its own. -/
theorem UsageError.head?_message (error : UsageError) :
    error.message.toList.head? = some 'e' := by
  cases error with
  | unknownOption argument =>
      show ("error: unexpected argument '" ++ _ ++ _).toList.head? = some 'e'
      simp
  | repeatedOption option =>
      show ("error: the argument '" ++ _ ++ _).toList.head? = some 'e'
      simp
  | surplusArgument argument =>
      show ("error: unexpected argument '" ++ _ ++ _).toList.head? = some 'e'
      simp
  | missingContents =>
      show "error: the following required arguments were not provided: <CONTENTS>".toList.head? =
        some 'e'
      simp

/-- The error stream of a text names what keeps it from its answer, and nothing else. -/
theorem stderr_showText (listTokens : Bool) (text : String) :
    (showText listTokens text).stderr =
      match failure? listTokens (dropLineEnds text) with
      | some cause => cause.message ++ "\n"
      | none => "" := by
  unfold showText failure? showTokens showValue
  cases listTokens with
  | true => cases htokens : tokenize (dropLineEnds text) <;> rfl
  | false => cases hvalue : evaluate (dropLineEnds text) <;> rfl

/-- The line of a usage error is not that of a breakdown. -/
theorem UsageError.not_isBreakdownLine (error : UsageError) :
    ¬ IsBreakdownLine (error.message ++ "\n") := by
  rintro ⟨breakdown, hline⟩
  rcases breakdown.head?_message with ⟨c, hc, hhead⟩
  have hfirst := error.head?_message
  rw [(String.append_left_inj "\n").mp hline, hhead] at hfirst
  exact hc (Option.some.inj hfirst)

/-- The usage errors of `readArguments` are not taken for breakdowns. -/
theorem tellsMisuse_readArguments : TellsMisuse readArguments := by
  intro arguments usage husage
  unfold readArguments at husage
  cases hrequest : Request.ofArguments arguments with
  | ok request =>
      rw [hrequest] at husage
      cases husage
  | error error =>
      rw [hrequest] at husage
      cases husage
      exact error.not_isBreakdownLine

section Breakdowns

variable {reading : List String → Except String Request} {readFile : String → Option ByteArray}
  {arguments : List String} {invocation : Invocation} {listTokens : Bool} {text : String}
  {breakdown : Breakdown}

/-- A text that cannot be split into tokens has no value for the same reason. -/
theorem failure?_of_tokenize {error : LexicalError} (htokens : tokenize text = .error error) :
    failure? listTokens text = some (.lexical error) := by
  unfold failure?
  rw [evaluate_eq, htokens]
  cases listTokens <;> rfl

/-- An accepted command line breaks down if its text cannot be split into tokens. -/
theorem breakdown?_of_tokenize {error : LexicalError}
    (hread : reading arguments = .ok (.invoke invocation))
    (htext : invocation.text? readFile = some text)
    (htokens : tokenize (dropLineEnds text) = .error error) :
    breakdown? reading readFile arguments = some (.evaluation (.lexical error)) := by
  unfold breakdown?
  rw [hread]
  simp only [htext, failure?_of_tokenize htokens, Option.map_some]

/-- A run writes the message of a breakdown exactly if it breaks down that way. -/
theorem stderr_respondBy_eq_iff (htells : TellsMisuse reading) :
    (respondBy reading readFile arguments).stderr = breakdown.message ++ "\n" ↔
      breakdown? reading readFile arguments = some breakdown := by
  have hempty : "" = breakdown.message ++ "\n" ↔ (none : Option Breakdown) = some breakdown :=
    iff_of_false (by simp) nofun
  have hsame (found : Breakdown) :
      found.message ++ "\n" = breakdown.message ++ "\n" ↔ some found = some breakdown := by
    rw [String.append_left_inj, Breakdown.message_injective.eq_iff, Option.some.injEq]
  unfold respondBy breakdown?
  cases hread : reading arguments with
  | error usage =>
      exact iff_of_false (fun hline => htells arguments usage hread ⟨breakdown, hline⟩) nofun
  | ok request =>
      cases request with
      | help => exact hempty
      | version => exact hempty
      | invoke invocation =>
          simp only [Invocation.respond]
          cases invocation.text? readFile with
          | none => exact hsame (.unreadable invocation.contents)
          | some text =>
              simp only [stderr_showText]
              cases failure? invocation.listTokens (dropLineEnds text) with
              | none => exact hempty
              | some cause => exact hsame (.evaluation cause)

/-- The program itself reads its arguments in such a way. -/
theorem stderr_respond_eq_iff :
    (respond readFile arguments).stderr = breakdown.message ++ "\n" ↔
      breakdown? readArguments readFile arguments = some breakdown :=
  stderr_respondBy_eq_iff tellsMisuse_readArguments

end Breakdowns

/-- Messages tell failures apart: they are the same exactly if all that the failures carry is
the same.  So a run that writes what another wrote on breaking down broke down the same way.
The arguments may be read in any way, as long as a command line that is not accepted is not
answered with the line of a breakdown. -/
theorem messages_identify :
    (∀ cause cause' : Failure, cause.message = cause'.message ↔ cause = cause') ∧
      ∀ reading, TellsMisuse reading →
        ∀ readFile readFile' arguments arguments' breakdown,
          breakdown? reading readFile arguments = some breakdown →
            ((respondBy reading readFile' arguments').stderr =
                (respondBy reading readFile arguments).stderr ↔
              breakdown? reading readFile' arguments' = some breakdown) := by
  refine ⟨fun cause cause' => Failure.message_injective.eq_iff, ?_⟩
  intro reading htells readFile readFile' arguments arguments' breakdown hbreakdown
  rw [(stderr_respondBy_eq_iff htells).mpr hbreakdown, stderr_respondBy_eq_iff htells]

/-- The value of an argument and the tokens of a file are denied with the same line, for the
same stranger. -/
theorem messages_identify_at_stranger :
    TellsMisuse readArguments ∧
      breakdown? readArguments (fun _ => none) ["2 * ?"] =
        some (.evaluation (.lexical (.unexpectedCharacter '?' 4))) ∧
      breakdown? readArguments (fun _ => some "2 * ?\r\n".toUTF8) ["-ft", "product"] =
        some (.evaluation (.lexical (.unexpectedCharacter '?' 4))) ∧
      (respond (fun _ => some "2 * ?\r\n".toUTF8) ["-ft", "product"]).stderr =
        (respond (fun _ => none) ["2 * ?"]).stderr := by
  have htokens : tokenize "2 * ?" = .error (.unexpectedCharacter '?' 4) :=
    tokenize_eq_error_iff.mpr (by simp [IsFirstStranger, InAlphabet])
  have hargument : breakdown? readArguments (fun _ => none) ["2 * ?"] =
      some (.evaluation (.lexical (.unexpectedCharacter '?' 4))) := by
    have hread : readArguments ["2 * ?"] = .ok (.invoke ⟨false, false, "2 * ?"⟩) := rfl
    exact breakdown?_of_tokenize hread rfl htokens
  have hfile : breakdown? readArguments (fun _ => some "2 * ?\r\n".toUTF8) ["-ft", "product"] =
      some (.evaluation (.lexical (.unexpectedCharacter '?' 4))) := by
    have hread : readArguments ["-ft", "product"] = .ok (.invoke ⟨true, true, "product"⟩) := rfl
    exact breakdown?_of_tokenize hread (Invocation.text?_of_fromFile rfl rfl) htokens
  exact ⟨tellsMisuse_readArguments, hargument, hfile,
    (messages_identify.2 _ tellsMisuse_readArguments _ _ _ _ _ hargument).mpr hfile⟩

end CommandLine

end Calculator
