import Calculator.CommandLine.Response
import Calculator.Proofs.Layout

/-!
# Listings of tokens

A listing has one line for each token, which shows its kind and its text in quotes.  No
character of a source needs to be escaped, so the text between the quotes is that of the token
and the tokens can be read back.  Their texts alone, with a space behind each, are a source of
the same tokens.

Main results:

- Theorem `readListing?_join`: the tokens of a listing are read back.
- Theorem `tokenize_spacedTexts`: the texts of the tokens of a source are a source of the same
  tokens.
-/

namespace Calculator

/-! ## Texts that need no escape -/

/-- A character of the alphabet stands for itself between double quotes. -/
theorem escape_of_inAlphabet {c : Char} (hc : InAlphabet c) : Quoted.escape '"' c = [c] := by
  rcases toNat_of_inAlphabet hc with ⟨hlow, hhigh, hquote⟩
  have hne (d : Char) (hd : d.toNat < 32 ∨ 57 < d.toNat) : c ≠ d := by
    rintro rfl
    omega
  have hcontrol : Quoted.isControl c = false := by
    simp only [Quoted.isControl, Bool.or_eq_false_iff, Bool.and_eq_false_iff,
      decide_eq_false_iff_not]
    omega
  simp [Quoted.escape, hquote, hne '\\' (by decide), hne '\x00' (by decide),
    hne '\t' (by decide), hne '\n' (by decide), hne '\r' (by decide), hcontrol]

/-- A text of the alphabet is shown as it is. -/
theorem toList_quotedString {text : String} (htext : ∀ c ∈ text.toList, InAlphabet c) :
    (quotedString text).toList = '"' :: (text.toList ++ ['"']) := by
  have hplain : text.toList.flatMap (Quoted.escape '"') = text.toList := by
    rw [List.flatMap_congr fun c hc => escape_of_inAlphabet (htext c hc), List.flatMap_singleton']
  rw [quotedString, String.toList_ofList, hplain]

/-- No character of the alphabet ends a line. -/
theorem isLineEnd_of_inAlphabet {c : Char} (hc : InAlphabet c) :
    CommandLine.isLineEnd c = false := by
  rcases toNat_of_inAlphabet hc with ⟨hlow, -, -⟩
  unfold CommandLine.isLineEnd
  rw [Bool.or_eq_false_iff, decide_eq_false_iff_not, decide_eq_false_iff_not]
  constructor <;> rintro rfl <;> simp at hlow

/-! ## Reading a listing -/

/-- The kind that a label names. -/
def Token.Kind.ofLabel? (label : String) : Option Kind :=
  [plus, minus, star, slash, number, endOfInput].find? fun kind => kind.label = label

theorem Token.Kind.ofLabel?_label (kind : Kind) : ofLabel? kind.label = some kind := by
  cases kind <;> decide

/-- A label is one word. -/
theorem Token.Kind.ne_of_mem_label {kind : Kind} :
    ∀ c ∈ kind.label.toList, c ≠ ' ' ∧ c ≠ '\n' := by
  cases kind <;> simp [label]

/-- The lines of a text, without their ends. -/
def linesOf : List Char → List (List Char)
  | [] => []
  | c :: rest =>
      if c = '\n' then [] :: linesOf rest
      else
        match linesOf rest with
        | [] => [[c]]
        | line :: others => (c :: line) :: others

/-- What stands in front of a line end is a line. -/
theorem linesOf_append {line rest : List Char} (hline : '\n' ∉ line) :
    linesOf (line ++ '\n' :: rest) = line :: linesOf rest := by
  induction line with
  | nil => rfl
  | cons c line ih =>
      rw [List.mem_cons, not_or] at hline
      rw [List.cons_append, linesOf, if_neg (Ne.symm hline.1), ih hline.2]

/-- The token that a line shows: a kind, a space, and a text in quotes. -/
def readToken? (line : List Char) : Option Token :=
  match line.dropWhile (· ≠ ' ') with
  | ' ' :: '"' :: quoted =>
      if quoted.getLast? = some '"' then
        (Token.Kind.ofLabel? (String.ofList (line.takeWhile (· ≠ ' ')))).map fun kind =>
          ⟨kind, String.ofList quoted.dropLast⟩
      else none
  | _ => none

/-- The tokens that a listing shows, one a line. -/
def readListing? (listing : String) : Option (List Token) :=
  (linesOf listing.toList).mapM readToken?

section Tokens

variable {token : Token} {tokens : List Token}

/-- A line shows the label, and the text between quotes as it is. -/
theorem toList_tokenLine (htext : ∀ c ∈ token.text.toList, InAlphabet c) :
    (CommandLine.tokenLine token).toList =
      token.kind.label.toList ++ ' ' :: '"' :: (token.text.toList ++ ['"']) ++ ['\n'] := by
  rw [CommandLine.tokenLine, String.toList_append, String.toList_append, String.toList_append,
    toList_quotedString htext]
  simp

/-- The token of a line is read back. -/
theorem readToken?_line :
    readToken? (token.kind.label.toList ++ ' ' :: '"' :: (token.text.toList ++ ['"'])) =
      some token := by
  have hlabel : ∀ c ∈ token.kind.label.toList, decide (c ≠ ' ') = true :=
    fun c hc => decide_eq_true (Token.Kind.ne_of_mem_label c hc).1
  rw [readToken?, List.dropWhile_append_of_pos hlabel, List.takeWhile_append_of_pos hlabel]
  simp [Token.Kind.ofLabel?_label]

/-- Within the line of a token no other line ends. -/
theorem newline_not_mem_line (htext : ∀ c ∈ token.text.toList, InAlphabet c) :
    '\n' ∉ token.kind.label.toList ++ ' ' :: '"' :: (token.text.toList ++ ['"']) := by
  have hlabel : '\n' ∉ token.kind.label.toList :=
    fun hc => (Token.Kind.ne_of_mem_label _ hc).2 rfl
  have htext' : '\n' ∉ token.text.toList := by
    intro hc
    have hend := isLineEnd_of_inAlphabet (htext _ hc)
    cases hend
  simp [hlabel, htext']

/-- The tokens of a listing are read back. -/
theorem readListing?_join (htexts : ∀ token ∈ tokens, ∀ c ∈ token.text.toList, InAlphabet c) :
    readListing? (String.join (tokens.map CommandLine.tokenLine)) = some tokens := by
  unfold readListing?
  induction tokens with
  | nil => rfl
  | cons token tokens ih =>
      rw [List.forall_mem_cons] at htexts
      rw [List.map_cons, String.join_cons, String.toList_append, toList_tokenLine htexts.1,
        List.append_assoc, List.singleton_append, linesOf_append (newline_not_mem_line htexts.1),
        List.mapM_cons, readToken?_line, ih htexts.2]
      rfl

/-! ## The texts of a listing -/

/-- The texts of tokens, with a space behind each but the last. -/
def spacedTexts (tokens : List Token) : String :=
  String.intercalate " " (tokens.map Token.text)

theorem toList_spacedTexts (pieces : List Token) :
    (spacedTexts (pieces ++ [Token.endOfInput])).toList =
      pieces.flatMap fun piece => piece.text.toList ++ [' '] := by
  unfold spacedTexts
  induction pieces with
  | nil => rfl
  | cons piece pieces ih =>
      have hne : (pieces ++ [Token.endOfInput]).map Token.text ≠ [] := by simp
      rw [List.cons_append, List.map_cons, String.intercalate_cons_of_ne_nil hne,
        String.toList_append, String.toList_append, ih, List.flatMap_cons]
      rfl

/-- The texts of spelled tokens, with a space behind each, have these tokens. -/
theorem piecesOf_flatMap_text (hspelled : ∀ token ∈ tokens, token.Spelled) :
    piecesOf (tokens.flatMap fun token => token.text.toList ++ [' ']) = tokens := by
  induction tokens with
  | nil => rfl
  | cons token tokens ih =>
      rw [List.forall_mem_cons] at hspelled
      rw [List.flatMap_cons, List.append_assoc, piecesOf_text_append hspelled.1 ?_,
        List.singleton_append, piecesOf_space, ih hspelled.2]
      intro _ c hc
      cases hc
      rfl

/-- Texts with a space behind each are in the alphabet if they are spelled. -/
theorem inAlphabet_flatMap_text (hspelled : ∀ token ∈ tokens, token.Spelled) :
    ∀ c ∈ tokens.flatMap fun token => token.text.toList ++ [' '], InAlphabet c := by
  intro c hc
  rcases List.mem_flatMap.mp hc with ⟨token, htoken, hmem⟩
  rcases List.mem_append.mp hmem with htext | hspace
  · exact (hspelled token htoken).inAlphabet c htext
  · rw [List.mem_singleton.mp hspace]
    exact inAlphabet_space

end Tokens

section Source

variable {source : String} {tokens : List Token}

/-- The texts of the tokens of a source are a source of the same tokens. -/
theorem tokenize_spacedTexts (htokens : tokenize source = .ok tokens) :
    tokenize (spacedTexts tokens) = .ok tokens := by
  rcases tokenize_eq_ok_iff.mp htokens with ⟨hall, rfl⟩
  have hspelled : ∀ piece ∈ pieces source, piece.Spelled :=
    fun _ hpiece => Token.spelled_of_mem_piecesOf hall hpiece
  have hpieces : pieces (spacedTexts (pieces source ++ [Token.endOfInput])) = pieces source := by
    show piecesOf (spacedTexts _).toList = _
    rw [toList_spacedTexts, piecesOf_flatMap_text hspelled]
  rw [tokenize_eq_ok_iff, hpieces, toList_spacedTexts]
  exact ⟨inAlphabet_flatMap_text hspelled, rfl⟩

/-- The characters of all tokens of a source are in the alphabet. -/
theorem inAlphabet_of_tokenize (htokens : tokenize source = .ok tokens) :
    ∀ token ∈ tokens, ∀ c ∈ token.text.toList, InAlphabet c := by
  rcases tokenize_eq_ok_iff.mp htokens with ⟨hall, rfl⟩
  intro token htoken
  rcases List.mem_append.mp htoken with hpiece | hmarker
  · exact (Token.spelled_of_mem_piecesOf hall hpiece).inAlphabet
  · rw [List.mem_singleton.mp hmarker]
    simp [Token.endOfInput]

end Source

end Calculator
