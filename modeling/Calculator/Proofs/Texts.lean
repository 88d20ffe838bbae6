import Calculator.Proofs.Decimal
import Calculator.Proofs.Machine.Control
import Calculator.Proofs.Machine.Simulation
import Mathlib.Data.List.Forall2

/-!
# What the texts of tokens decide

The kind of a token alone decides what the token does, except that a number has the value
that its text says.  Two sequences of the same kinds, with numbers of the same values, are
therefore evaluated in the same way, step by step.  Their texts make a difference in one
place only: the report on an unexpected token quotes its text.

Main results:

- Theorem `Machine.run_alike`: two runs on tokens that are alike end in the same way, except
  that each quotes its own texts.
- Theorems `Numeral.read_zeros_append` and `Numeral.read_plus_append`: zeros in front of a
  numeral, and a plus in front of it, leave its value as it is.
- Theorem `evaluateTokens_alike`: both, for the evaluation of tokens.
-/

namespace Calculator

/-- Two tokens of the same kind which, if they are numbers, have the same text or the same
value. -/
def Token.Alike (token token' : Token) : Prop :=
  token.kind = token'.kind ∧
    (token.kind = .number → token.text = token'.text ∨
      ∃ value, Numeral.read token.text = .ok value ∧ Numeral.read token'.text = .ok value)

/-- Two evaluations end in the same way, except that the report on an unexpected token
quotes the text of the token in the respective sequence. -/
inductive SameButForTexts (tokens tokens' : List Token) :
    Except Failure Int64 → Except Failure Int64 → Prop where
  | same {result : Except Failure Int64}
      (hresult : ∀ text position,
        result ≠ .error (.grammatical (.unexpectedToken text position))) :
      SameButForTexts tokens tokens' result result
  | unexpected {i : Nat} {token token' : Token}
      (htoken : tokens[i]? = some token) (htoken' : tokens'[i]? = some token') :
      SameButForTexts tokens tokens'
        (.error (.grammatical (.unexpectedToken token.text (i + 1))))
        (.error (.grammatical (.unexpectedToken token'.text (i + 1))))

instance : Std.Refl Token.Alike :=
  ⟨fun _ => ⟨rfl, fun _ => .inl rfl⟩⟩

/-- Two sequences are alike that differ in one token, if these two tokens are alike. -/
theorem forall₂_alike_append_cons {token token' : Token} (halike : token.Alike token')
    (front others : List Token) :
    List.Forall₂ Token.Alike (front ++ token :: others) (front ++ token' :: others) :=
  List.rel_append (List.forall₂_refl front) (.cons halike (List.forall₂_refl others))

namespace Machine

variable {nestingLimit : Option Nat} {position : Nat} {token token' : Token}

/-! ## Steps -/

/-- Numbers that are alike are read alike. -/
theorem literal_alike (halike : token.Alike token') (hkind : token.kind = .number) :
    literal token.text position = literal token'.text position := by
  rcases halike.2 hkind with htext | ⟨value, hread, hread'⟩
  · rw [htext]
  · rw [literal_ok position hread, literal_ok position hread']

/-- In the place of an operand, a token that has a place there acts as one that is alike. -/
theorem stepOperand_alike {sum top : Option Pending} {below : List (Option Pending)}
    (halike : token.Alike token')
    (hplace : (Control.operand below.length).after? token.kind ≠ none) :
    stepOperand nestingLimit sum below top position token =
      stepOperand nestingLimit sum below top position token' := by
  have hkinds := halike.1
  cases hkind : token.kind <;> rw [hkind] at hkinds hplace
  case minus => simp only [stepOperand, hkind, ← hkinds]
  case number =>
    rw [stepOperand_number hkind, stepOperand_number hkinds.symm, literal_alike halike hkind]
  all_goals exact absurd rfl hplace

/-- Behind an operand, so does a token that has a place there. -/
theorem stepOperator_alike {sum : Option Pending} {below : List (Option Pending)}
    {value : Int64} (halike : token.Alike token')
    (hplace : (Control.operator below.length).after? token.kind ≠ none) :
    stepOperator sum below value position token =
      stepOperator sum below value position token' := by
  have hkinds := halike.1
  cases hkind : token.kind <;> rw [hkind] at hkinds hplace
  case number => exact absurd rfl hplace
  all_goals simp only [stepOperator, hkind, ← hkinds]

/-- Where tokens of their kind can stand, two tokens that are alike are read in the same
way. -/
theorem step_alike {state : State} (halike : token.Alike token')
    (hplace : state.control.after? token.kind ≠ none) :
    step nestingLimit state position token = step nestingLimit state position token' := by
  cases state with
  | start =>
      rw [step, step, halike.1]
      split
      next => rfl
      next hend =>
        rw [← halike.1] at hend
        refine stepOperand_alike halike ?_
        rwa [State.control, Control.after?_start hend] at hplace
  | operand sum below top => exact stepOperand_alike halike hplace
  | operator sum below value => exact stepOperator_alike halike hplace
  | done value => rfl

/-! ## Runs -/

/-- Runs on tokens that are alike end in the same way, except that each quotes its own texts.
The induction is on the tokens to be read, behind others of which only the number counts. -/
theorem run_alike {state : State} {read read' tokens tokens' : List Token}
    (halike : List.Forall₂ Token.Alike tokens tokens') (hlength : read.length = position)
    (hlength' : read'.length = position) :
    SameButForTexts (read ++ tokens) (read' ++ tokens')
      (run nestingLimit state position tokens) (run nestingLimit state position tokens') := by
  induction halike generalizing state position read read' with
  | nil =>
      rw [run_nil]
      refine .same fun text place hunexpected => ?_
      cases state <;> cases hunexpected
  | @cons token token' others others' htoken _ ih =>
      rw [run_cons, run_cons]
      by_cases hplace : state.control.after? token.kind = none
      · -- both tokens are unexpected, and the two reports differ
        have hplace' := hplace
        rw [htoken.1] at hplace'
        rw [step_eq_unexpectedToken_iff.mpr ⟨hplace, rfl, rfl⟩,
          step_eq_unexpectedToken_iff.mpr ⟨hplace', rfl, rfl⟩]
        exact .unexpected (by simp [← hlength]) (by simp [← hlength'])
      · rw [← step_alike htoken hplace]
        cases hstep : step nestingLimit state (position + 1) token with
        | error cause =>
            refine .same fun text place hunexpected => hplace ?_
            cases hunexpected
            exact (step_eq_unexpectedToken_iff.mp hstep).1
        | ok next =>
            have hrest := @ih (position + 1) next (read ++ [token]) (read' ++ [token'])
              (by simp [hlength]) (by simp [hlength'])
            rwa [List.append_assoc, List.append_assoc] at hrest

end Machine

/-! ## Numerals of the same value -/

/-- A text of zeros. -/
def zeros (count : Nat) : String :=
  String.ofList (List.replicate count '0')

namespace Numeral

variable {text : String}

/-- Zeros in front of a numeral leave it one. -/
theorem isNumeral_zeros_append (hnumeral : IsNumeral text) (count : Nat) :
    IsNumeral (zeros count ++ text) := by
  rcases hnumeral with ⟨hne, hdigits⟩
  rw [IsNumeral, String.toList_append, zeros, String.toList_ofList]
  refine ⟨by simp [hne], ?_⟩
  intro c hc
  rcases List.mem_append.mp hc with hzero | hdigit
  · rw [List.eq_of_mem_replicate hzero]
    rfl
  · exact hdigits c hdigit

/-- Zeros in front of digits do not change the number. -/
theorem decimal_zeros_append (text : String) (count : Nat) :
    decimal (zeros count ++ text) = decimal text := by
  rw [decimal, decimal, String.toList_append, zeros, String.toList_ofList]
  induction count with
  | zero => rfl
  | succ count ih => exact ih

/-- Zeros in front of a numeral leave its value as it is. -/
theorem read_zeros_append (hnumeral : IsNumeral text) (count : Nat) :
    read (zeros count ++ text) = read text := by
  rw [read_of_isNumeral (isNumeral_zeros_append hnumeral count), read_of_isNumeral hnumeral,
    decimal_zeros_append]

/-- A plus in front of a numeral leaves its value as it is. -/
theorem read_plus_append (hnumeral : IsNumeral text) : read ("+" ++ text) = read text := by
  rcases hnumeral with ⟨hne, hdigits⟩
  rcases List.exists_cons_of_ne_nil hne with ⟨c, digits, hcons⟩
  have hc : c.isDigit = true := hdigits c (by simp [hcons])
  have hplus : ("+" ++ text).toList = '+' :: text.toList := by simp
  rw [read, read, hplus, hcons, readChars_of_isDigit hc]
  rfl

end Numeral

/-- The texts of tokens do not influence what is done with them.  Sequences of the same kinds
with numbers of the same values have the same value or fail for the same cause at the same
position, and the report on an unexpected token quotes its own text.  So the text of a token
that is no number does not matter, and neither do a plus and zeros in front of a number. -/
theorem evaluateTokens_alike :
    (∀ tokens tokens', List.Forall₂ Token.Alike tokens tokens' →
      SameButForTexts tokens tokens' (evaluateTokens tokens) (evaluateTokens tokens')) ∧
    (∀ front others kind text text', kind ≠ .number →
      SameButForTexts (front ++ ⟨kind, text⟩ :: others) (front ++ ⟨kind, text'⟩ :: others)
        (evaluateTokens (front ++ ⟨kind, text⟩ :: others))
        (evaluateTokens (front ++ ⟨kind, text'⟩ :: others))) ∧
    (∀ front others text text' count value, IsNumeral text → Numeral.read text = .ok value →
      text' = zeros count ++ text ∨ text' = "+" ++ (zeros count ++ text) →
      SameButForTexts (front ++ ⟨.number, text⟩ :: others) (front ++ ⟨.number, text'⟩ :: others)
        (evaluateTokens (front ++ ⟨.number, text⟩ :: others))
        (evaluateTokens (front ++ ⟨.number, text'⟩ :: others))) := by
  have hmachine : evaluateTokens = Machine.evaluate (some 256) :=
    funext (Machine.evaluateTokensWithin_eq (some 256))
  have hruns : ∀ tokens tokens', List.Forall₂ Token.Alike tokens tokens' →
      SameButForTexts tokens tokens' (evaluateTokens tokens) (evaluateTokens tokens') := by
    intro tokens tokens' halike
    rw [hmachine]
    exact @Machine.run_alike _ 0 .start [] [] tokens tokens' halike rfl rfl
  refine ⟨hruns, ?_, ?_⟩
  · intro front others kind text text' hkind
    have halike : Token.Alike ⟨kind, text⟩ ⟨kind, text'⟩ :=
      ⟨rfl, fun hnumber => absurd hnumber hkind⟩
    exact hruns _ _ (forall₂_alike_append_cons halike front others)
  · intro front others text text' count value hnumeral hread htext
    have hread' : Numeral.read text' = .ok value := by
      rcases htext with rfl | rfl
      · rwa [Numeral.read_zeros_append hnumeral]
      · rwa [Numeral.read_plus_append (Numeral.isNumeral_zeros_append hnumeral count),
          Numeral.read_zeros_append hnumeral]
    have halike : Token.Alike ⟨.number, text⟩ ⟨.number, text'⟩ :=
      ⟨rfl, fun _ => .inr ⟨value, hread, hread'⟩⟩
    exact hruns _ _ (forall₂_alike_append_cons halike front others)

/-- Two products that lack a factor at the same place, each with its own text there; a blank
sequence with a text in its marker; and a number that is written in two ways. -/
theorem evaluateTokens_alike_at_missing_factor :
    SameButForTexts [⟨.number, "2"⟩, ⟨.star, "*"⟩, ⟨.star, "*"⟩]
        [⟨.number, "+002"⟩, ⟨.star, "times"⟩, ⟨.star, "by"⟩]
        (.error (.grammatical (.unexpectedToken "*" 3)))
        (.error (.grammatical (.unexpectedToken "by" 3))) ∧
      SameButForTexts [⟨.endOfInput, ""⟩] [⟨.endOfInput, "end"⟩] (.ok 0) (.ok 0) ∧
      SameButForTexts [⟨.number, "7"⟩, ⟨.endOfInput, ""⟩] [⟨.number, "+007"⟩, ⟨.endOfInput, ""⟩]
        (.ok 7) (.ok 7) := by
  have hresult : ∀ tokens, evaluateTokens tokens = Machine.evaluate (some 256) tokens :=
    Machine.evaluateTokensWithin_eq (some 256)
  refine ⟨?_, ?_, ?_⟩
  · have halike : List.Forall₂ Token.Alike [⟨.number, "2"⟩, ⟨.star, "*"⟩, ⟨.star, "*"⟩]
        [⟨.number, "+002"⟩, ⟨.star, "times"⟩, ⟨.star, "by"⟩] :=
      .cons ⟨rfl, fun _ => .inr ⟨2, rfl, rfl⟩⟩
        (.cons ⟨rfl, nofun⟩ (.cons ⟨rfl, nofun⟩ .nil))
    have hsame := evaluateTokens_alike.1 _ _ halike
    rw [hresult, hresult] at hsame
    exact hsame
  · have hsame := evaluateTokens_alike.2.1 [] [] .endOfInput "" "end" nofun
    rw [hresult, hresult] at hsame
    exact hsame
  · have hsame := evaluateTokens_alike.2.2 [] [⟨.endOfInput, ""⟩] "7" "+007" 2 7
      (by simp [IsNumeral]) rfl (.inr rfl)
    rw [hresult, hresult] at hsame
    exact hsame

end Calculator
