import Calculator.Lexeme
import Calculator.Proofs.Decimal
import Mathlib.Data.List.SplitBy

/-!
# The pieces of a source

A source falls into runs: the longest runs of digits, and all other characters one by
one.  Its pieces are the runs without the spaces, as tokens.  They are what a scan finds,
and a scan comes to its end exactly on sources whose characters are all in the alphabet.

Main results:

- Theorem `runs_induction`: induction over the runs of a text.
- Theorem `tokenize_eq_ok_iff`: the tokens of a source are its pieces and the closing
  marker.
- Theorem `Token.spelled_of_mem_piecesOf`: the text of a piece says what its kind is.
-/

namespace Calculator

/-! ## Runs -/

/-- The characters of which a source can be made: digits, operators and the space. -/
def InAlphabet (c : Char) : Prop :=
  c.isDigit ∨ c ∈ ['+', '-', '*', '/', ' ']

instance (c : Char) : Decidable (InAlphabet c) :=
  inferInstanceAs (Decidable (_ ∨ _))

/-- Cut a text into the longest runs of digits and single other characters. -/
def runs (characters : List Char) : List (List Char) :=
  characters.splitBy fun a b => a.isDigit && b.isDigit

/-- The token that a run stands for. -/
def Token.ofRun : List Char → Token
  | [c] =>
      match Kind.ofSymbol? c with
      | some kind => ⟨kind, c.toString⟩
      | none => ⟨.number, String.ofList [c]⟩
  | digits => ⟨.number, String.ofList digits⟩

/-- The runs of a text without the spaces, as tokens. -/
def piecesOf (characters : List Char) : List Token :=
  ((runs characters).filter (· ≠ [' '])).map Token.ofRun

/-- The pieces of a source. -/
def pieces (source : String) : List Token :=
  piecesOf source.toList

section Runs

variable {digits rest : List Char} {c : Char}

/-- A character that is no digit is a run by itself. -/
theorem runs_cons (hdigit : c.isDigit = false) : runs (c :: rest) = [c] :: runs rest := by
  have hapart : ∀ x ∈ [c].getLast?, ∀ y ∈ rest.head?, (x.isDigit && y.isDigit) = false := by
    intro x hx y hy
    simp only [List.getLast?_singleton, Option.mem_def, Option.some.injEq] at hx
    rw [← hx, hdigit, Bool.false_and]
  exact List.splitBy_append hapart

/-- Digits up to another character are one run. -/
theorem runs_digits_append (hne : digits ≠ []) (hdigits : ∀ c ∈ digits, c.isDigit = true)
    (hrest : ∀ c ∈ rest.head?, c.isDigit = false) :
    runs (digits ++ rest) = digits :: runs rest := by
  have hapart : ∀ x ∈ digits.getLast?, ∀ y ∈ rest.head?, (x.isDigit && y.isDigit) = false := by
    intro x _ y hy
    rw [hrest y hy, Bool.and_false]
  have hchain : digits.IsChain fun a b => (a.isDigit && b.isDigit) = true := by
    refine List.Pairwise.isChain (List.pairwise_of_forall_mem_list fun a ha b hb => ?_)
    rw [hdigits a ha, hdigits b hb, Bool.and_true]
  rw [runs, List.splitBy_append hapart, List.splitBy_of_isChain hne hchain]
  rfl

end Runs

/-! ## Symbols and digits -/

section Characters

variable {c : Char} {kind : Token.Kind}

theorem Token.Kind.ofSymbol?_eq_none_iff :
    ofSymbol? c = none ↔ c ∉ ['+', '-', '*', '/'] := by
  unfold ofSymbol?
  split <;> simp_all

theorem ne_space_of_isDigit (hdigit : c.isDigit = true) : c ≠ ' ' := by
  rintro rfl
  cases hdigit

theorem ofSymbol?_of_isDigit (hdigit : c.isDigit = true) : Token.Kind.ofSymbol? c = none := by
  rw [Token.Kind.ofSymbol?_eq_none_iff]
  intro hsymbol
  simp only [List.mem_cons, List.not_mem_nil, or_false] at hsymbol
  rcases hsymbol with rfl | rfl | rfl | rfl <;> cases hdigit

/-- A symbol is no digit. -/
theorem isDigit_of_ofSymbol? (hkind : Token.Kind.ofSymbol? c = some kind) :
    c.isDigit = false := by
  cases hdigit : c.isDigit with
  | false => rfl
  | true =>
    rw [ofSymbol?_of_isDigit hdigit] at hkind
    cases hkind

theorem ne_space_of_ofSymbol? (hkind : Token.Kind.ofSymbol? c = some kind) : c ≠ ' ' := by
  rintro rfl
  cases hkind

/-- A character of the alphabet is a space, a digit or a symbol. -/
theorem inAlphabet_iff :
    InAlphabet c ↔ c = ' ' ∨ c.isDigit = true ∨ ∃ kind, Token.Kind.ofSymbol? c = some kind := by
  rw [← Option.ne_none_iff_exists', ne_eq, Token.Kind.ofSymbol?_eq_none_iff]
  simp only [InAlphabet, List.mem_cons, List.not_mem_nil, or_false, not_not]
  tauto

theorem inAlphabet_space : InAlphabet ' ' :=
  inAlphabet_iff.mpr (.inl rfl)

theorem forall_inAlphabet_replicate (count : Nat) :
    ∀ c ∈ List.replicate count ' ', InAlphabet c := by
  intro c hc
  rw [List.eq_of_mem_replicate hc]
  exact inAlphabet_space

theorem inAlphabet_of_ofSymbol? (hkind : Token.Kind.ofSymbol? c = some kind) :
    InAlphabet c :=
  inAlphabet_iff.mpr (.inr (.inr ⟨kind, hkind⟩))

/-- The characters of the alphabet are among those from the space to the digits. -/
theorem toNat_of_inAlphabet (hc : InAlphabet c) :
    32 ≤ c.toNat ∧ c.toNat ≤ 57 ∧ c ≠ '"' := by
  rcases hc with hdigit | hsymbol
  · have hbounds := hdigit
    simp only [Char.isDigit, Bool.and_eq_true, decide_eq_true_eq, ge_iff_le,
      UInt32.le_iff_toNat_le] at hbounds
    refine ⟨Nat.le_trans (by decide) hbounds.1, hbounds.2, ?_⟩
    rintro rfl
    cases hdigit
  · simp only [List.mem_cons, List.not_mem_nil, or_false] at hsymbol
    rcases hsymbol with rfl | rfl | rfl | rfl | rfl <;> decide

/-- A text that starts with a digit starts with a longest run of digits. -/
theorem exists_eq_digits_append {others : List Char} (hdigit : c.isDigit = true) :
    ∃ digits rest, c :: others = digits ++ rest ∧ digits ≠ [] ∧
      (∀ d ∈ digits, d.isDigit = true) ∧ ∀ d ∈ rest.head?, d.isDigit = false := by
  refine ⟨(c :: others).takeWhile Char.isDigit, (c :: others).dropWhile Char.isDigit,
    List.takeWhile_append_dropWhile.symm, ?_, ?_, ?_⟩
  · rw [List.takeWhile_cons_of_pos hdigit]
    simp
  · exact fun d hd => List.all_eq_true.mp List.all_takeWhile d hd
  · intro d hd
    have hhead := List.head?_dropWhile_not Char.isDigit (c :: others)
    rw [hd] at hhead
    exact hhead

/-- Induction over the runs of a text: it is empty, or starts with a space, a symbol, a
character out of the alphabet, or a longest run of digits. -/
theorem runs_induction {motive : List Char → Prop} (nil : motive [])
    (space : ∀ rest, motive rest → motive (' ' :: rest))
    (symbol : ∀ c kind rest, Token.Kind.ofSymbol? c = some kind → motive rest →
      motive (c :: rest))
    (stranger : ∀ c rest, ¬ InAlphabet c → motive rest → motive (c :: rest))
    (digits : ∀ digits rest, digits ≠ [] → (∀ c ∈ digits, c.isDigit = true) →
      (∀ c ∈ rest.head?, c.isDigit = false) → motive rest → motive (digits ++ rest))
    (characters : List Char) : motive characters := by
  induction hlength : characters.length using Nat.strong_induction_on generalizing characters with
  | h length ih =>
    cases characters with
    | nil => exact nil
    | cons c others =>
      have hothers : motive others := ih _ (by rw [← hlength]; simp) others rfl
      by_cases hc : InAlphabet c
      · rcases inAlphabet_iff.mp hc with rfl | hdigit | ⟨kind, hkind⟩
        · exact space others hothers
        · rcases exists_eq_digits_append hdigit with ⟨run, rest, hsplit, hne, hrun, hhead⟩
          have hshorter : rest.length < length := by
            rw [← hlength, hsplit, List.length_append]
            have hpos := List.length_pos_iff.mpr hne
            omega
          rw [hsplit]
          exact digits run rest hne hrun hhead (ih _ hshorter rest rfl)
        · exact symbol c kind others hkind hothers
      · exact stranger c others hc hothers

end Characters

/-! ## Pieces of the runs -/

section Pieces

variable {digits rest : List Char} {c : Char} {kind : Token.Kind}

/-- A run of digits is a number. -/
theorem Token.ofRun_digits (hne : digits ≠ []) (hdigits : ∀ c ∈ digits, c.isDigit = true) :
    Token.ofRun digits = ⟨.number, String.ofList digits⟩ := by
  match digits, hne with
  | [c], _ =>
      have hsymbol : Kind.ofSymbol? c = none := ofSymbol?_of_isDigit (hdigits c (by simp))
      simp only [ofRun, hsymbol]
  | _ :: _ :: _, _ => rfl

@[simp]
theorem piecesOf_nil : piecesOf [] = [] :=
  rfl

@[simp]
theorem piecesOf_space : piecesOf (' ' :: rest) = piecesOf rest := by
  rw [piecesOf, runs_cons (show ' '.isDigit = false from rfl), List.filter_cons_of_neg (by simp)]
  rfl

/-- Spaces are no pieces. -/
theorem piecesOf_replicate_append (count : Nat) (rest : List Char) :
    piecesOf (List.replicate count ' ' ++ rest) = piecesOf rest := by
  induction count with
  | zero => rfl
  | succ count ih => rw [List.replicate_succ, List.cons_append, piecesOf_space, ih]

/-- The pieces of two texts in a row, unless a number runs from one into the other. -/
theorem piecesOf_append {first second : List Char}
    (hapart : ∀ c ∈ first.getLast?, ∀ d ∈ second.head?, (c.isDigit && d.isDigit) = false) :
    piecesOf (first ++ second) = piecesOf first ++ piecesOf second := by
  rw [piecesOf, runs, List.splitBy_append hapart, List.filter_append, List.map_append]
  rfl

/-- A symbol is one piece. -/
theorem piecesOf_symbol (hkind : Token.Kind.ofSymbol? c = some kind) :
    piecesOf (c :: rest) = ⟨kind, c.toString⟩ :: piecesOf rest := by
  have hspace : [c] ≠ [' '] := by
    simpa using ne_space_of_ofSymbol? hkind
  rw [piecesOf, runs_cons (isDigit_of_ofSymbol? hkind),
    List.filter_cons, if_pos (decide_eq_true hspace), List.map_cons]
  simp only [Token.ofRun, hkind]
  rfl

/-- Digits up to another character are one piece, a number. -/
theorem piecesOf_digits_append (hne : digits ≠ []) (hdigits : ∀ c ∈ digits, c.isDigit = true)
    (hrest : ∀ c ∈ rest.head?, c.isDigit = false) :
    piecesOf (digits ++ rest) = ⟨.number, String.ofList digits⟩ :: piecesOf rest := by
  have hspace : digits ≠ [' '] := by
    rintro rfl
    exact ne_space_of_isDigit (hdigits ' ' (by simp)) rfl
  rw [piecesOf, runs_digits_append hne hdigits hrest,
    List.filter_cons, if_pos (decide_eq_true hspace), List.map_cons,
    Token.ofRun_digits hne hdigits]
  rfl

/-- A text of digits is one piece. -/
theorem piecesOf_digits (hne : digits ≠ []) (hdigits : ∀ c ∈ digits, c.isDigit = true) :
    piecesOf digits = [⟨.number, String.ofList digits⟩] := by
  rw [← List.append_nil digits, piecesOf_digits_append hne hdigits (by simp), List.append_nil]
  rfl

end Pieces

/-! ## What a scan finds -/

namespace Scan

variable {position : Nat} {found : List Lexeme} {digits rest : List Char} {c : Char}

theorem readFrom_nil : readFrom position found [] = ⟨found.reverse, none⟩ := by
  rw [readFrom]

/-- A space is passed over. -/
theorem readFrom_space :
    readFrom position found (' ' :: rest) = readFrom (position + 1) found rest := by
  rw [readFrom, if_pos rfl]

/-- A symbol is found where it stands. -/
theorem readFrom_symbol {kind : Token.Kind} (hkind : Token.Kind.ofSymbol? c = some kind) :
    readFrom position found (c :: rest) =
      readFrom (position + 1) (⟨⟨kind, c.toString⟩, position⟩ :: found) rest := by
  have hdigit : ¬ c.isDigit = true := by
    rw [isDigit_of_ofSymbol? hkind]
    simp
  rw [readFrom, if_neg (ne_space_of_ofSymbol? hkind), if_neg hdigit]
  simp only [hkind]

/-- At a stranger the scan ends, with all that was found in front of it. -/
theorem readFrom_stranger (hstranger : ¬ InAlphabet c) :
    readFrom position found (c :: rest) =
      ⟨found.reverse, some (.unexpectedCharacter c position)⟩ := by
  rw [inAlphabet_iff, not_or, not_or] at hstranger
  rcases hstranger with ⟨hspace, hdigit, hsymbol⟩
  rw [readFrom, if_neg hspace, if_neg hdigit]
  cases hkind : Token.Kind.ofSymbol? c with
  | none => rfl
  | some kind => exact absurd ⟨kind, hkind⟩ hsymbol

/-- Digits up to another character are found as one number, where the first of them stands. -/
theorem readFrom_digits_append (hne : digits ≠ []) (hdigits : ∀ c ∈ digits, c.isDigit = true)
    (hrest : ∀ c ∈ rest.head?, c.isDigit = false) :
    readFrom position found (digits ++ rest) =
      readFrom (position + digits.length)
        (⟨⟨.number, String.ofList digits⟩, position⟩ :: found) rest := by
  rcases List.exists_cons_of_ne_nil hne with ⟨d, others, rfl⟩
  have hd : d.isDigit = true := hdigits d (by simp)
  have hothers : ∀ c ∈ others, c.isDigit = true := fun c hc => hdigits c (by simp [hc])
  have htake : rest.takeWhile Char.isDigit = [] := by
    cases rest with
    | nil => rfl
    | cons c rest => exact List.takeWhile_cons_of_neg (by simp [hrest c rfl])
  have hdrop : rest.dropWhile Char.isDigit = rest := by
    cases rest with
    | nil => rfl
    | cons c rest => exact List.dropWhile_cons_of_neg (by simp [hrest c rfl])
  rw [List.cons_append, readFrom, if_neg (ne_space_of_isDigit hd), if_pos hd]
  simp only [List.takeWhile_append_of_pos hothers, List.dropWhile_append_of_pos hothers, htake,
    hdrop, List.append_nil]

/-- A scan comes to the end of a text exactly when all characters are in the alphabet. -/
theorem obstacle_eq_none_iff {characters : List Char} :
    (readFrom position found characters).obstacle = none ↔
      ∀ c ∈ characters, InAlphabet c := by
  induction characters using runs_induction generalizing position found with
  | nil => simp [readFrom_nil]
  | space rest ih =>
      have hc : InAlphabet ' ' := .inr (by simp)
      rw [readFrom_space, List.forall_mem_cons, and_iff_right hc]
      exact ih
  | symbol c kind rest hkind ih =>
      rw [readFrom_symbol hkind, List.forall_mem_cons,
        and_iff_right (inAlphabet_of_ofSymbol? hkind)]
      exact ih
  | stranger c rest hstranger ih =>
      rw [readFrom_stranger hstranger]
      exact iff_of_false (by simp) fun hall => hstranger (hall c (by simp))
  | digits digits rest hne hdigits hhead ih =>
      have halphabet : ∀ c ∈ digits, InAlphabet c := fun c hc => .inl (hdigits c hc)
      rw [readFrom_digits_append hne hdigits hhead, List.forall_mem_append,
        and_iff_right halphabet]
      exact ih

/-- A scan that comes to the end of a text finds its pieces. -/
theorem lexemes_map_token {characters : List Char}
    (halphabet : ∀ c ∈ characters, InAlphabet c) :
    (readFrom position found characters).lexemes.map Lexeme.token =
      (found.map Lexeme.token).reverse ++ piecesOf characters := by
  induction characters using runs_induction generalizing position found with
  | nil => simp [readFrom_nil]
  | space rest ih =>
      rw [readFrom_space, piecesOf_space]
      exact ih (List.forall_mem_cons.mp halphabet).2
  | symbol c kind rest hkind ih =>
      rw [readFrom_symbol hkind, piecesOf_symbol hkind, ih (List.forall_mem_cons.mp halphabet).2]
      simp
  | stranger c rest hstranger ih => exact absurd (halphabet c (by simp)) hstranger
  | digits digits rest hne hdigits hhead ih =>
      rw [readFrom_digits_append hne hdigits hhead, piecesOf_digits_append hne hdigits hhead,
        ih (List.forall_mem_append.mp halphabet).2]
      simp

end Scan

/-- A source has tokens exactly when all its characters are in the alphabet, and then they
are its pieces and the closing marker. -/
theorem tokenize_eq_ok_iff {source : String} {tokens : List Token} :
    tokenize source = .ok tokens ↔
      (∀ c ∈ source.toList, InAlphabet c) ∧ tokens = pieces source ++ [Token.endOfInput] := by
  rw [← @Scan.obstacle_eq_none_iff 0 []]
  unfold tokenize Scan.tokens Scan.ofSource
  cases hobstacle : (Scan.readFrom 0 [] source.toList).obstacle with
  | some error => simp
  | none =>
      have hfound := @Scan.lexemes_map_token 0 [] _ (Scan.obstacle_eq_none_iff.mp hobstacle)
      simp only [hfound, List.map_nil, List.reverse_nil, List.nil_append, Except.ok.injEq,
        true_and]
      exact eq_comm

/-! ## What pieces look like -/

/-- The kind of the token of an operation. -/
def Operator.kind : Operator → Token.Kind
  | add => .plus
  | sub => .minus
  | mul => .star
  | div => .slash

/-- The token of an operation. -/
def Operator.token (op : Operator) : Token where
  kind := op.kind
  text := op.symbol.toString

theorem Operator.kind_ne_number (op : Operator) : op.kind ≠ .number := by
  cases op <;> simp [kind]

theorem Operator.symbol_isDigit (op : Operator) : op.symbol.isDigit = false := by
  cases op <;> rfl

/-- The symbol of an operator stands for its kind. -/
theorem Operator.ofSymbol?_symbol (op : Operator) :
    Token.Kind.ofSymbol? op.symbol = some op.kind := by
  cases op <;> rfl

theorem Operator.toList_text_token (op : Operator) : op.token.text.toList = [op.symbol] := by
  simp [token]

/-- The text of a token says what its kind is. -/
def Token.Spelled (token : Token) : Prop :=
  (token.kind = .number ∧ IsNumeral token.text) ∨ ∃ op : Operator, token = op.token

/-- The closing marker is spelled by nothing. -/
theorem Token.Spelled.kind_ne_endOfInput {token : Token} (hspelled : token.Spelled) :
    token.kind ≠ .endOfInput := by
  rcases hspelled with ⟨hkind, -⟩ | ⟨op, rfl⟩
  · rw [hkind]
    simp
  · cases op <;> simp [Operator.token, Operator.kind]

/-- The text of a number is one or more digits. -/
theorem Token.Spelled.isNumeral {token : Token} (hspelled : token.Spelled)
    (hkind : token.kind = .number) : IsNumeral token.text := by
  rcases hspelled with ⟨-, hnumeral⟩ | ⟨op, rfl⟩
  · exact hnumeral
  · exact absurd hkind op.kind_ne_number

/-- The symbols are those of the operators, with their kinds. -/
theorem Token.Kind.ofSymbol?_eq_some_iff {c : Char} {kind : Token.Kind} :
    ofSymbol? c = some kind ↔ ∃ op : Operator, c = op.symbol ∧ kind = op.kind := by
  constructor
  · intro hkind
    unfold ofSymbol? at hkind
    split at hkind <;> cases hkind
    · exact ⟨.add, rfl, rfl⟩
    · exact ⟨.sub, rfl, rfl⟩
    · exact ⟨.mul, rfl, rfl⟩
    · exact ⟨.div, rfl, rfl⟩
  · intro h
    rcases h with ⟨op, rfl, rfl⟩
    cases op <;> rfl

/-- Every piece is spelled as its kind says. -/
theorem Token.spelled_of_mem_piecesOf {characters : List Char} {token : Token}
    (halphabet : ∀ c ∈ characters, InAlphabet c) (hmem : token ∈ piecesOf characters) :
    token.Spelled := by
  induction characters using runs_induction with
  | nil => cases hmem
  | space rest ih =>
      rw [piecesOf_space] at hmem
      exact ih (List.forall_mem_cons.mp halphabet).2 hmem
  | symbol c kind rest hkind ih =>
      rw [piecesOf_symbol hkind, List.mem_cons] at hmem
      rcases hmem with rfl | hmem
      · rcases Token.Kind.ofSymbol?_eq_some_iff.mp hkind with ⟨op, rfl, rfl⟩
        exact .inr ⟨op, rfl⟩
      · exact ih (List.forall_mem_cons.mp halphabet).2 hmem
  | stranger c rest hstranger ih => exact absurd (halphabet c (by simp)) hstranger
  | digits digits rest hne hdigits hhead ih =>
      rw [piecesOf_digits_append hne hdigits hhead, List.mem_cons] at hmem
      rcases hmem with rfl | hmem
      · exact .inl ⟨rfl, by simpa [IsNumeral] using ⟨hne, hdigits⟩⟩
      · exact ih (List.forall_mem_append.mp halphabet).2 hmem

/-- A text of the alphabet without pieces consists of spaces. -/
theorem piecesOf_eq_nil_iff {characters : List Char}
    (halphabet : ∀ c ∈ characters, InAlphabet c) :
    piecesOf characters = [] ↔ ∀ c ∈ characters, c = ' ' := by
  induction characters using runs_induction with
  | nil => simp
  | space rest ih =>
      rw [piecesOf_space, ih (List.forall_mem_cons.mp halphabet).2]
      simp
  | symbol c kind rest hkind ih =>
      rw [piecesOf_symbol hkind]
      exact iff_of_false (by simp) fun hall => ne_space_of_ofSymbol? hkind (hall c (by simp))
  | stranger c rest hstranger ih => exact absurd (halphabet c (by simp)) hstranger
  | digits digits rest hne hdigits hhead ih =>
      rcases List.exists_cons_of_ne_nil hne with ⟨d, others, rfl⟩
      rw [piecesOf_digits_append hne hdigits hhead]
      exact iff_of_false (by simp) fun hall =>
        ne_space_of_isDigit (hdigits d (by simp)) (hall d (by simp))

end Calculator
