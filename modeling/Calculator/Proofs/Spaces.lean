import Calculator.Proofs.Source
import Calculator.Proofs.Stranger
import Calculator.Proofs.SyntaxErrors
import Mathlib.Data.List.DropRight

/-!
# Spaces in a source

Spaces put into a source leave its pieces as they are, unless they are put into a number.
They move the characters behind them, which only a lexical error shows, as all other
positions count tokens.  Spaces put into a number cut it in two, and no two numbers can
stand in a row.

Main results:

- Theorem `tokenize_spaces`: spaces outside of numbers only move a lexical error.
- Theorem `exists_evaluate_eq_error_of_split`: a source with a number cut in two fails.
- Theorem `evaluate_spaces`: both, for the evaluation of a source.
-/

namespace Calculator

/-- A text of spaces. -/
def spaces (count : Nat) : String :=
  String.ofList (List.replicate count ' ')

/-- The last character of a text is a digit. -/
def EndsInDigit (text : String) : Prop :=
  ∃ c ∈ text.toList.getLast?, c.isDigit = true

/-- The first character of a text is a digit. -/
def StartsWithDigit (text : String) : Prop :=
  ∃ c ∈ text.toList.head?, c.isDigit = true

instance (text : String) : Decidable (EndsInDigit text) :=
  text.toList.getLast?.decidableExistsMem

instance (text : String) : Decidable (StartsWithDigit text) :=
  text.toList.head?.decidableExistsMem

/-- The lexical error after characters are put into the source at a place. -/
def LexicalError.makeRoom (place count : Nat) : LexicalError → LexicalError
  | unexpectedCharacter c position =>
      unexpectedCharacter c (if position < place then position else position + count)

/-- The failure after characters are put into the source at a place.  Only lexical
positions count characters. -/
def Failure.makeRoom (place count : Nat) : Failure → Failure
  | lexical error => lexical (error.makeRoom place count)
  | grammatical error => grammatical error
  | arithmetic error => arithmetic error

section Tokens

variable {x y : String} {count : Nat}

theorem toList_append_spaces :
    (x ++ spaces count ++ y).toList = x.toList ++ (List.replicate count ' ' ++ y.toList) := by
  simp [spaces]

/-- Spaces in between add no stranger. -/
theorem forall_inAlphabet_append_spaces :
    (∀ c ∈ (x ++ spaces count ++ y).toList, InAlphabet c) ↔
      ∀ c ∈ (x ++ y).toList, InAlphabet c := by
  rw [toList_append_spaces, String.toList_append, List.forall_mem_append,
    List.forall_mem_append, List.forall_mem_append,
    and_iff_right (forall_inAlphabet_replicate count)]

/-- Spaces keep the pieces on their two sides apart. -/
theorem pieces_append_spaces_of_pos (hcount : 0 < count) :
    pieces (x ++ spaces count ++ y) = pieces x ++ pieces y := by
  have hjunction : ∀ c ∈ x.toList.getLast?,
      ∀ d ∈ (List.replicate count ' ' ++ y.toList).head?, (c.isDigit && d.isDigit) = false := by
    intro c _ d hd
    rw [List.head?_append, List.head?_replicate, if_neg (Nat.ne_of_gt hcount)] at hd
    rw [← Option.some.inj hd]
    exact Bool.and_false _
  rw [pieces, toList_append_spaces, piecesOf_append hjunction, piecesOf_replicate_append]
  rfl

/-! ## Spaces outside of numbers -/

/-- Spaces outside of numbers leave the pieces as they are. -/
theorem pieces_append_spaces (hapart : ¬ (EndsInDigit x ∧ StartsWithDigit y)) :
    pieces (x ++ spaces count ++ y) = pieces (x ++ y) := by
  have hjunction : ∀ c ∈ x.toList.getLast?, ∀ d ∈ y.toList.head?,
      (c.isDigit && d.isDigit) = false := by
    intro c hc d hd
    by_contra hboth
    rw [Bool.not_eq_false, Bool.and_eq_true] at hboth
    exact hapart ⟨⟨c, hc, hboth.1⟩, ⟨d, hd, hboth.2⟩⟩
  have hjoined : pieces (x ++ y) = pieces x ++ pieces y := by
    rw [pieces, String.toList_append, piecesOf_append hjunction]
    rfl
  rw [hjoined]
  rcases Nat.eq_zero_or_pos count with rfl | hcount
  · rw [← hjoined, show spaces 0 = "" from rfl, String.append_empty]
  · exact pieces_append_spaces_of_pos hcount

/-- Spaces move the first stranger if it stands behind them. -/
theorem isFirstStranger_append_spaces {i : Nat} {c : Char}
    (hfirst : IsFirstStranger (x ++ y).toList i c) :
    IsFirstStranger (x ++ spaces count ++ y).toList (if i < x.length then i else i + count) c := by
  rw [String.toList_append] at hfirst
  rw [toList_append_spaces]
  by_cases hall : ∀ d ∈ x.toList, InAlphabet d
  · rcases (isFirstStranger_append_of_forall hall).mp hfirst with ⟨j, rfl, hrest⟩
    have hbehind : ¬ x.toList.length + j < x.length := by
      rw [String.length_toList]
      omega
    rw [if_neg hbehind, isFirstStranger_append_of_forall hall]
    refine ⟨count + j, by omega, ?_⟩
    rw [isFirstStranger_append_of_forall (forall_inAlphabet_replicate count)]
    exact ⟨j, by rw [List.length_replicate], hrest⟩
  · have hwithin := (isFirstStranger_append_of_not_forall hall).mp hfirst
    have hlt : i < x.length := (List.getElem?_eq_some_iff.mp hwithin.1).1
    rw [if_pos hlt, isFirstStranger_append_of_not_forall hall]
    exact hwithin

/-- Spaces outside of numbers leave the tokens as they are and move a lexical error if it
stands behind them. -/
theorem tokenize_spaces (hapart : ¬ (EndsInDigit x ∧ StartsWithDigit y)) :
    tokenize (x ++ spaces count ++ y) =
      (tokenize (x ++ y)).mapError (LexicalError.makeRoom x.length count) := by
  by_cases hall : ∀ c ∈ (x ++ y).toList, InAlphabet c
  · have htokens := tokenize_eq_ok_iff.mpr ⟨hall, rfl⟩
    rw [htokens]
    refine tokenize_eq_ok_iff.mpr ⟨forall_inAlphabet_append_spaces.mpr hall, ?_⟩
    rw [pieces_append_spaces hapart]
  · rcases exists_tokenize_eq_error hall with ⟨c, i, herror⟩
    rw [herror]
    exact tokenize_eq_error_iff.mpr
      (isFirstStranger_append_spaces (tokenize_eq_error_iff.mp herror))

/-! ## Spaces within numbers -/

/-- What is in front of the last digits of a text does not end in a digit. -/
theorem getLast?_rdropWhile_isDigit (characters : List Char) :
    ∀ c ∈ (characters.rdropWhile Char.isDigit).getLast?, c.isDigit = false := by
  intro c hc
  have hne : characters.rdropWhile Char.isDigit ≠ [] := by
    intro hnil
    rw [hnil] at hc
    cases hc
  rw [List.getLast?_eq_some_getLast hne, Option.mem_some_iff] at hc
  rw [← hc]
  exact Bool.eq_false_iff.mpr (List.rdropWhile_last_not Char.isDigit characters hne)

/-- A text that ends in a digit ends in a number. -/
theorem followsNumber_pieces (hlast : EndsInDigit x) : FollowsNumber (pieces x) := by
  rcases hlast with ⟨c, hc, hdigit⟩
  rcases List.getLast?_eq_some_iff.mp hc with ⟨init, hx⟩
  have hne : x.toList.rtakeWhile Char.isDigit ≠ [] := by
    rw [hx, List.rtakeWhile_concat_pos Char.isDigit init c hdigit]
    simp
  have hdigits : ∀ d ∈ x.toList.rtakeWhile Char.isDigit, d.isDigit = true :=
    fun d hd => List.mem_rtakeWhile_imp hd
  have hjunction : ∀ a ∈ (x.toList.rdropWhile Char.isDigit).getLast?,
      ∀ b ∈ (x.toList.rtakeWhile Char.isDigit).head?, (a.isDigit && b.isDigit) = false := by
    intro a ha b _
    rw [getLast?_rdropWhile_isDigit _ a ha, Bool.false_and]
  rw [pieces, ← List.rdropWhile_append_rtakeWhile (p := Char.isDigit) (l := x.toList),
    piecesOf_append hjunction, piecesOf_digits hne hdigits]
  exact followsNumber_concat.mpr rfl

/-- A text that starts with a digit starts with a number. -/
theorem exists_pieces_eq_cons (hfirst : StartsWithDigit y) :
    ∃ text others, pieces y = ⟨.number, text⟩ :: others := by
  rcases hfirst with ⟨c, hc, hdigit⟩
  rcases List.head?_eq_some_iff.mp hc with ⟨others, hy⟩
  rcases exists_eq_digits_append hdigit with ⟨digits, rest, hsplit, hne, hdigits, hhead⟩
  rw [pieces, hy, hsplit, piecesOf_digits_append hne hdigits hhead]
  exact ⟨_, _, rfl⟩

/-- A source in which a number is cut in two has no value. -/
theorem exists_evaluate_eq_error_of_split (hlast : EndsInDigit x) (hfirst : StartsWithDigit y)
    (hcount : 0 < count) (hall : ∀ c ∈ (x ++ y).toList, InAlphabet c) :
    ∃ cause, evaluate (x ++ spaces count ++ y) = .error cause := by
  have hx : ∀ c ∈ x.toList, InAlphabet c := by
    intro c hc
    apply hall
    rw [String.toList_append, List.mem_append]
    exact .inl hc
  rcases exists_pieces_eq_cons hfirst with ⟨text, others, hy⟩
  have hplace : OutOfPlace (pieces x) .number := .inr ⟨followsNumber_pieces hlast, rfl⟩
  have hnone : ∀ value, Machine.evaluate (some 256)
      (pieces x ++ ⟨.number, text⟩ :: (others ++ [Token.endOfInput])) ≠ .ok value :=
    fun _ => Machine.evaluate_ne_ok_of_outOfPlace (unclosed_pieces hx) hplace
  rw [evaluate_eq_of_inAlphabet (forall_inAlphabet_append_spaces.mpr hall),
    pieces_append_spaces_of_pos hcount, hy, List.append_assoc, List.cons_append]
  cases hresult : Machine.evaluate (some 256)
      (pieces x ++ ⟨.number, text⟩ :: (others ++ [Token.endOfInput])) with
  | ok value => exact absurd hresult (hnone value)
  | error cause => exact ⟨cause, rfl⟩

end Tokens

/-- A failure that is not lexical stays the same. -/
theorem mapError_makeRoom_evaluateTokens (place count : Nat) (tokens : List Token) :
    (evaluateTokens tokens).mapError (Failure.makeRoom place count) = evaluateTokens tokens := by
  have hmachine : evaluateTokens tokens = Machine.evaluate (some 256) tokens :=
    Machine.evaluateTokensWithin_eq (some 256) tokens
  rw [hmachine]
  cases hresult : Machine.evaluate (some 256) tokens with
  | ok value => rfl
  | error cause =>
    cases cause with
    | lexical error => exact absurd hresult Machine.evaluate_ne_lexical
    | grammatical error => rfl
    | arithmetic error => rfl

/-- Evaluation ignores spaces except within numbers.  Spaces put between two texts leave the
result of the whole as it is, unless a number runs from one into the other, but for the
position of a lexical error behind them.  Spaces put into a number leave no value. -/
theorem evaluate_spaces (x y : String) (count : Nat) :
    (¬ (EndsInDigit x ∧ StartsWithDigit y) →
      evaluate (x ++ spaces count ++ y) =
        (evaluate (x ++ y)).mapError (Failure.makeRoom x.length count)) ∧
    (EndsInDigit x → StartsWithDigit y → 0 < count →
      (∀ c ∈ (x ++ y).toList, InAlphabet c) →
        ∃ cause, evaluate (x ++ spaces count ++ y) = .error cause) := by
  constructor
  · intro hapart
    rw [evaluate_eq, evaluate_eq, tokenize_spaces hapart]
    cases tokenize (x ++ y) with
    | ok tokens => exact (mapError_makeRoom_evaluateTokens x.length count tokens).symm
    | error error => rfl
  · exact exists_evaluate_eq_error_of_split

/-- Spaces behind a sign only move a stranger, and a space between two digits is fatal. -/
theorem evaluate_spaces_around_sign :
    evaluate ("7 -" ++ spaces 3 ++ "2?") = .error (.lexical (.unexpectedCharacter '?' 7)) ∧
      ∃ cause, evaluate ("7 -1" ++ spaces 1 ++ "2") = .error cause := by
  constructor
  · have hmoved := (evaluate_spaces "7 -" "2?" 3).1 (by decide)
    have hstranger : IsFirstStranger ("7 -" ++ "2?").toList 4 '?' := by
      simp [IsFirstStranger, InAlphabet]
    rw [evaluate_eq ("7 -" ++ "2?"), tokenize_eq_error_iff.mpr hstranger] at hmoved
    exact hmoved
  · exact (evaluate_spaces "7 -1" "2" 1).2 (by decide) (by decide) (by decide)
      (by simp [InAlphabet])

end Calculator
