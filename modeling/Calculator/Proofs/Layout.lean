import Calculator.Proofs.Stranger

/-!
# Layouts

A layout sets tokens in a line, with any number of spaces in front of each of them and
behind the last, and with at least one space between two numbers, which would run together
otherwise.  Scanning the text of a layout finds its tokens again, and every text that can
be scanned to its end is the text of a layout.

Main results:

- Theorem `Layout.piecesOf_characters`: the pieces of a layout are its tokens.
- Theorem `Layout.exists_characters_eq`: every text of the alphabet is a layout.
- Theorem `tokenize_exact`: the tokens of a source are those of its layout, and a source
  without a layout fails at its first stranger.
-/

namespace Calculator

/-! ## Tokens with spaces -/

/-- A token and the number of spaces in front of it. -/
structure Spaced where
  spaces : Nat
  token : Token

namespace Spaced

/-- The spaces and the text of the token. -/
def characters (item : Spaced) : List Char :=
  List.replicate item.spaces ' ' ++ item.token.text.toList

/-- There is a space between two numbers in a row. -/
def Apart (left right : Spaced) : Prop :=
  left.token.kind = .number → right.token.kind = .number → 0 < right.spaces

/-- Tokens in a line, with a number of spaces behind the last. -/
def line (items : List Spaced) (trailing : Nat) : List Char :=
  items.flatMap characters ++ List.replicate trailing ' '

theorem line_nil (trailing : Nat) : line [] trailing = List.replicate trailing ' ' :=
  rfl

/-- A line starts with the spaces and the text of its first token. -/
theorem line_cons (item : Spaced) (others : List Spaced) (trailing : Nat) :
    line (item :: others) trailing =
      List.replicate item.spaces ' ' ++ (item.token.text.toList ++ line others trailing) := by
  simp [line, characters]

/-- A line starts with a digit exactly where a number without spaces comes first. -/
theorem head?_line_not_isDigit_iff {items : List Spaced} {trailing : Nat}
    (hspelled : ∀ item ∈ items, item.token.Spelled) :
    (∀ c ∈ (line items trailing).head?, c.isDigit = false) ↔
      ∀ item ∈ items.head?, item.token.kind = .number → 0 < item.spaces := by
  cases items with
  | nil =>
      rw [line_nil]
      refine iff_of_true ?_ (by simp)
      intro c hc
      rw [List.eq_of_mem_replicate (List.mem_of_mem_head? hc)]
      rfl
  | cons item others =>
      rw [line_cons]
      simp only [List.head?_cons, Option.mem_some_iff, forall_eq']
      cases hspaces : item.spaces with
      | succ spaces => simp [List.replicate_succ]
      | zero =>
        rcases hspelled item (by simp) with ⟨hnumber, hne, hdigits⟩ | ⟨op, hop⟩
        · rcases List.exists_cons_of_ne_nil hne with ⟨d, digits, htext⟩
          have hd : d.isDigit = true := hdigits d (by simp [htext])
          simp [htext, hd, hnumber]
        · simp [hop, op.kind_ne_number, op.symbol_isDigit, Operator.token]

end Spaced

/-- Tokens set in a line, each spelled as its kind says. -/
structure Layout where
  items : List Spaced
  /-- The number of spaces behind the last token. -/
  trailing : Nat
  spelled : ∀ item ∈ items, item.token.Spelled
  apart : items.IsChain Spaced.Apart

namespace Layout

/-- The tokens of a layout, in order. -/
def tokens (layout : Layout) : List Token :=
  layout.items.map Spaced.token

/-- The characters of a layout, in order. -/
def characters (layout : Layout) : List Char :=
  Spaced.line layout.items layout.trailing

/-- The text of a layout. -/
def text (layout : Layout) : String :=
  String.ofList layout.characters

end Layout

/-! ## From a layout to its tokens -/

/-- The characters of a spelled token are in the alphabet. -/
theorem Token.Spelled.inAlphabet {token : Token} (hspelled : token.Spelled) :
    ∀ c ∈ token.text.toList, InAlphabet c := by
  intro c hc
  rcases hspelled with ⟨-, -, hdigits⟩ | ⟨op, rfl⟩
  · exact .inl (hdigits c hc)
  · rw [op.toList_text_token, List.mem_singleton] at hc
    rw [hc]
    exact inAlphabet_of_ofSymbol? op.ofSymbol?_symbol

/-- The characters of a layout are in the alphabet. -/
theorem Layout.inAlphabet (layout : Layout) : ∀ c ∈ layout.characters, InAlphabet c := by
  intro c hc
  simp only [characters, Spaced.line, Spaced.characters, List.mem_append, List.mem_flatMap] at hc
  rcases hc with ⟨item, hitem, hspace | htext⟩ | hspace
  · exact forall_inAlphabet_replicate _ c hspace
  · exact (layout.spelled item hitem).inAlphabet c htext
  · exact forall_inAlphabet_replicate _ c hspace

/-- The pieces of a line that starts with a spelled token start with this token. -/
theorem piecesOf_text_append {token : Token} {rest : List Char} (hspelled : token.Spelled)
    (hrest : token.kind = .number → ∀ c ∈ rest.head?, c.isDigit = false) :
    piecesOf (token.text.toList ++ rest) = token :: piecesOf rest := by
  rcases hspelled with ⟨hnumber, hne, hdigits⟩ | ⟨op, rfl⟩
  · rw [piecesOf_digits_append hne hdigits (hrest hnumber), String.ofList_toList, ← hnumber]
  · rw [op.toList_text_token, List.singleton_append, piecesOf_symbol op.ofSymbol?_symbol]
    rfl

/-- The pieces of a layout are its tokens. -/
theorem Layout.piecesOf_characters (layout : Layout) :
    piecesOf layout.characters = layout.tokens := by
  rcases layout with ⟨items, trailing, hspelled, hapart⟩
  show piecesOf (Spaced.line items trailing) = items.map Spaced.token
  induction items with
  | nil =>
      rw [Spaced.line_nil, ← List.append_nil (List.replicate trailing ' '),
        piecesOf_replicate_append]
      rfl
  | cons item others ih =>
      rcases List.forall_mem_cons.mp hspelled with ⟨hitem, hothers⟩
      rcases List.isChain_cons.mp hapart with ⟨hnext, hapart⟩
      have hrest : item.token.kind = .number →
          ∀ c ∈ (Spaced.line others trailing).head?, c.isDigit = false := by
        intro hnumber
        exact (Spaced.head?_line_not_isDigit_iff hothers).mpr fun next hhead =>
          hnext next hhead hnumber
      rw [Spaced.line_cons, piecesOf_replicate_append, piecesOf_text_append hitem hrest,
        ih hothers hapart, List.map_cons]

/-! ## From a text to its layout -/

namespace Layout

/-- The layout of no tokens. -/
def blank (trailing : Nat) : Layout where
  items := []
  trailing := trailing
  spelled := by simp
  apart := .nil

/-- A layout with one more token in front is a layout, if the token is kept apart. -/
theorem exists_characters_eq_text_append (layout : Layout) {token : Token}
    (hspelled : token.Spelled)
    (hapart : ∀ next ∈ layout.items.head?, Spaced.Apart ⟨0, token⟩ next) :
    ∃ longer : Layout, longer.characters = token.text.toList ++ layout.characters :=
  ⟨⟨⟨0, token⟩ :: layout.items, layout.trailing,
    List.forall_mem_cons.mpr ⟨hspelled, layout.spelled⟩,
    List.isChain_cons.mpr ⟨hapart, layout.apart⟩⟩, Spaced.line_cons _ _ _⟩

/-- A layout with one more space in front is a layout. -/
theorem exists_characters_eq_space_cons (layout : Layout) :
    ∃ indented : Layout, indented.characters = ' ' :: layout.characters := by
  rcases layout with ⟨items, trailing, hspelled, hapart⟩
  cases items with
  | nil => exact ⟨blank (trailing + 1), rfl⟩
  | cons item others =>
      rcases List.forall_mem_cons.mp hspelled with ⟨hitem, hothers⟩
      rcases List.isChain_cons.mp hapart with ⟨hnext, hapart⟩
      exact ⟨⟨⟨item.spaces + 1, item.token⟩ :: others, trailing,
        List.forall_mem_cons.mpr ⟨hitem, hothers⟩, List.isChain_cons.mpr ⟨hnext, hapart⟩⟩, rfl⟩

/-- Every text of the alphabet is a layout. -/
theorem exists_characters_eq {characters : List Char}
    (hall : ∀ c ∈ characters, InAlphabet c) :
    ∃ layout : Layout, layout.characters = characters := by
  induction characters using runs_induction with
  | nil => exact ⟨blank 0, rfl⟩
  | space rest ih =>
      rcases ih (List.forall_mem_cons.mp hall).2 with ⟨layout, rfl⟩
      exact layout.exists_characters_eq_space_cons
  | symbol c kind rest hkind ih =>
      rcases ih (List.forall_mem_cons.mp hall).2 with ⟨layout, rfl⟩
      rcases Token.Kind.ofSymbol?_eq_some_iff.mp hkind with ⟨op, rfl, rfl⟩
      have hapart : ∀ next ∈ layout.items.head?, Spaced.Apart ⟨0, op.token⟩ next :=
        fun _ _ hnumber => absurd hnumber op.kind_ne_number
      have hlonger := layout.exists_characters_eq_text_append (.inr ⟨op, rfl⟩) hapart
      rwa [op.toList_text_token] at hlonger
  | stranger c rest hstranger ih => exact absurd (hall c (by simp)) hstranger
  | digits digits rest hne hdigits hhead ih =>
      rcases ih (List.forall_mem_append.mp hall).2 with ⟨layout, rfl⟩
      have hspelled : (⟨.number, String.ofList digits⟩ : Token).Spelled :=
        .inl ⟨rfl, by simpa [IsNumeral] using ⟨hne, hdigits⟩⟩
      -- the digits end where they do because no digit comes next
      have hspaces := (Spaced.head?_line_not_isDigit_iff layout.spelled).mp hhead
      have hapart : ∀ next ∈ layout.items.head?,
          Spaced.Apart ⟨0, ⟨.number, String.ofList digits⟩⟩ next :=
        fun next hnext _ => hspaces next hnext
      have hlonger := layout.exists_characters_eq_text_append hspelled hapart
      rwa [String.toList_ofList] at hlonger

end Layout

/-! ## Exact scanning -/

/-- Scanning undoes laying out and is exact.  The text of a layout has the tokens of the
layout and the closing marker, with empty text.  A source has tokens exactly when all its
characters are in the alphabet, and then it is the text of a layout with these tokens.  Any
other source fails at its first character that is not in the alphabet, with the number of
characters in front of it. -/
theorem tokenize_exact :
    (∀ layout : Layout, tokenize layout.text = .ok (layout.tokens ++ [⟨.endOfInput, ""⟩])) ∧
    (∀ source, (∃ tokens, tokenize source = .ok tokens) ↔
      ∀ c ∈ source.toList, InAlphabet c) ∧
    (∀ source tokens, tokenize source = .ok tokens →
      ∃ layout : Layout, source = layout.text ∧
        tokens = layout.tokens ++ [⟨.endOfInput, ""⟩]) ∧
    (∀ source, (¬ ∀ c ∈ source.toList, InAlphabet c) →
      ∃ c i, tokenize source = .error (.unexpectedCharacter c i) ∧
        source.toList[i]? = some c ∧ ¬ InAlphabet c ∧
        ∀ d ∈ source.toList.take i, InAlphabet d) := by
  refine ⟨?_, ?_, ?_, ?_⟩
  · intro layout
    rw [tokenize_eq_ok_iff, pieces, Layout.text, String.toList_ofList,
      layout.piecesOf_characters]
    exact ⟨layout.inAlphabet, rfl⟩
  · intro source
    constructor
    · rintro ⟨tokens, htokens⟩
      exact (tokenize_eq_ok_iff.mp htokens).1
    · intro hall
      exact ⟨_, tokenize_eq_ok_iff.mpr ⟨hall, rfl⟩⟩
  · intro source tokens htokens
    rcases tokenize_eq_ok_iff.mp htokens with ⟨hall, rfl⟩
    rcases Layout.exists_characters_eq hall with ⟨layout, hlayout⟩
    refine ⟨layout, ?_, ?_⟩
    · rw [Layout.text, hlayout, String.ofList_toList]
    · rw [← layout.piecesOf_characters, hlayout]
      rfl
  · intro source hsome
    rcases exists_tokenize_eq_error hsome with ⟨c, i, herror⟩
    exact ⟨c, i, herror, tokenize_eq_error_iff.mp herror⟩

example : tokenize "1 ✓ 2" = .error (.unexpectedCharacter '✓' 2) := by cbv

end Calculator
