import Calculator.Proofs.Pieces

/-!
# The first stranger of a source

A stranger is a character that is not in the alphabet.  A scan passes over everything in
front of the first stranger and stops there, so the error names the first stranger of the
whole source, with the number of characters in front of it.

Main results:

- Theorems `isFirstStranger_append_of_forall` and `isFirstStranger_append_of_not_forall`:
  the first stranger of two texts in a row.
- Theorem `tokenize_eq_error_iff`: the error of a source names its first stranger.
- Theorem `tokenize_eq_error_iff_offset`: the place in the error counts characters, and bytes just
  as well.
-/

namespace Calculator

/-- The character at an index is the first one that is not in the alphabet. -/
def IsFirstStranger (characters : List Char) (i : Nat) (c : Char) : Prop :=
  characters[i]? = some c ∧ ¬ InAlphabet c ∧ ∀ d ∈ characters.take i, InAlphabet d

section Append

variable {first second : List Char} {c : Char} {i : Nat}

theorem not_isFirstStranger_nil : ¬ IsFirstStranger [] i c := by
  simp [IsFirstStranger]

/-- In front of all others, a stranger is the first. -/
theorem isFirstStranger_cons {d : Char} {rest : List Char} (hstranger : ¬ InAlphabet d) :
    IsFirstStranger (d :: rest) i c ↔ i = 0 ∧ c = d := by
  constructor
  · intro h
    rcases h with ⟨hc, -, hbefore⟩
    cases i with
    | zero => exact ⟨rfl, (Option.some.inj hc).symm⟩
    | succ i => exact absurd (hbefore d (by simp)) hstranger
  · rintro ⟨rfl, rfl⟩
    exact ⟨rfl, hstranger, by simp⟩

/-- Behind a text of the alphabet, the first stranger is that of the rest. -/
theorem isFirstStranger_append_of_forall (hall : ∀ d ∈ first, InAlphabet d) :
    IsFirstStranger (first ++ second) i c ↔
      ∃ j, i = first.length + j ∧ IsFirstStranger second j c := by
  constructor
  · intro h
    rcases h with ⟨hc, hstranger, hbefore⟩
    have hle : first.length ≤ i := by
      by_contra hlt
      rw [List.getElem?_append_left (Nat.lt_of_not_le hlt)] at hc
      exact hstranger (hall c (List.mem_of_getElem? hc))
    refine ⟨i - first.length, by omega, ?_, hstranger, ?_⟩
    · rwa [List.getElem?_append_right hle] at hc
    · intro d hd
      apply hbefore
      rw [List.take_append, List.mem_append]
      exact .inr hd
  · rintro ⟨j, rfl, hc, hstranger, hbefore⟩
    refine ⟨?_, hstranger, ?_⟩
    · rw [List.getElem?_append_right (Nat.le_add_right _ _), Nat.add_sub_cancel_left]
      exact hc
    · intro d hd
      rw [List.take_length_add_append, List.mem_append] at hd
      rcases hd with hd | hd
      · exact hall d hd
      · exact hbefore d hd

/-- A text with a stranger has the first one, whatever comes behind the text. -/
theorem isFirstStranger_append_of_not_forall (hsome : ¬ ∀ d ∈ first, InAlphabet d) :
    IsFirstStranger (first ++ second) i c ↔ IsFirstStranger first i c := by
  have hwithin : IsFirstStranger (first ++ second) i c → i < first.length := by
    intro h
    by_contra hle
    apply hsome
    intro d hd
    apply h.2.2
    rw [List.take_append, List.take_of_length_le (Nat.le_of_not_lt hle), List.mem_append]
    exact .inl hd
  constructor
  · intro h
    have hlt := hwithin h
    rcases h with ⟨hc, hstranger, hbefore⟩
    rw [List.getElem?_append_left hlt] at hc
    rw [List.take_append_of_le_length (Nat.le_of_lt hlt)] at hbefore
    exact ⟨hc, hstranger, hbefore⟩
  · rintro ⟨hc, hstranger, hbefore⟩
    have hlt : i < first.length := (List.getElem?_eq_some_iff.mp hc).1
    refine ⟨?_, hstranger, ?_⟩
    · rwa [List.getElem?_append_left hlt]
    · rwa [List.take_append_of_le_length (Nat.le_of_lt hlt)]

end Append

/-! ## What stops a scan -/

/-- Passing over a text of the alphabet moves the place of the first stranger. -/
theorem exists_isFirstStranger_append {first rest : List Char} {c : Char}
    {position place : Nat} (hall : ∀ d ∈ first, InAlphabet d) :
    (∃ i, place = position + i ∧ IsFirstStranger (first ++ rest) i c) ↔
      ∃ i, place = position + first.length + i ∧ IsFirstStranger rest i c := by
  simp only [isFirstStranger_append_of_forall hall]
  constructor
  · rintro ⟨_, rfl, i, rfl, hfirst⟩
    exact ⟨i, (Nat.add_assoc _ _ _).symm, hfirst⟩
  · rintro ⟨i, rfl, hfirst⟩
    exact ⟨_, Nat.add_assoc _ _ _, i, rfl, hfirst⟩

/-- A scan is stopped by the first stranger. -/
theorem Scan.obstacle_eq_some_iff {position place : Nat} {found : List Lexeme}
    {characters : List Char} {c : Char} :
    (readFrom position found characters).obstacle = some (.unexpectedCharacter c place) ↔
      ∃ i, place = position + i ∧ IsFirstStranger characters i c := by
  induction characters using runs_induction generalizing position found with
  | nil => simp [readFrom_nil, not_isFirstStranger_nil]
  | space rest ih =>
      have hspace : ∀ d ∈ [' '], InAlphabet d := by simp [inAlphabet_space]
      rw [readFrom_space, ih]
      exact (exists_isFirstStranger_append hspace).symm
  | symbol d kind rest hkind ih =>
      have hsymbol : ∀ e ∈ [d], InAlphabet e := by simp [inAlphabet_of_ofSymbol? hkind]
      rw [readFrom_symbol hkind, ih]
      exact (exists_isFirstStranger_append hsymbol).symm
  | stranger d rest hstranger ih =>
      rw [readFrom_stranger hstranger]
      simp only [isFirstStranger_cons hstranger, Option.some.injEq,
        LexicalError.unexpectedCharacter.injEq]
      constructor
      · rintro ⟨rfl, rfl⟩
        exact ⟨0, rfl, rfl, rfl⟩
      · rintro ⟨_, rfl, rfl, rfl⟩
        exact ⟨rfl, rfl⟩
  | digits digits rest hne hdigits hhead ih =>
      have hall : ∀ d ∈ digits, InAlphabet d := fun d hd => .inl (hdigits d hd)
      rw [readFrom_digits_append hne hdigits hhead, ih]
      exact (exists_isFirstStranger_append hall).symm

/-- The lexical error of a source names its first stranger. -/
theorem tokenize_eq_error_iff {source : String} {c : Char} {i : Nat} :
    tokenize source = .error (.unexpectedCharacter c i) ↔
      IsFirstStranger source.toList i c := by
  have hstopped := @Scan.obstacle_eq_some_iff 0 i [] source.toList c
  simp only [Nat.zero_add, exists_eq_left'] at hstopped
  rw [← hstopped]
  unfold tokenize Scan.tokens Scan.ofSource
  cases (Scan.readFrom 0 [] source.toList).obstacle <;> simp

/-! ## Bytes -/

/-- A character of the alphabet takes one byte. -/
theorem utf8Size_of_inAlphabet {c : Char} (hc : InAlphabet c) : c.utf8Size = 1 := by
  rw [Char.utf8Size_eq_one_iff, UInt32.le_iff_toNat_le]
  exact Nat.le_trans (toNat_of_inAlphabet hc).2.1 (by decide)

/-- A text of the alphabet has as many bytes as characters. -/
theorem size_utf8Encode {text : List Char} (htext : ∀ c ∈ text, InAlphabet c) :
    text.utf8Encode.size = text.length := by
  induction text with
  | nil => rfl
  | cons c text ih =>
      rw [List.forall_mem_cons] at htext
      rw [List.utf8Encode_cons, ByteArray.size_append, ih htext.2, List.utf8Encode_singleton,
        List.size_toByteArray, String.length_utf8EncodeChar, utf8Size_of_inAlphabet htext.1,
        List.length_cons, Nat.add_comm]

/-- The lexical error of a source stands between what is of the alphabet and what a scan does not
reach.  Its place is both the number of characters in front of it and the number of bytes. -/
theorem tokenize_eq_error_iff_offset {source : String} {c : Char} {i : Nat} :
    tokenize source = .error (.unexpectedCharacter c i) ↔
      ∃ before after, source.toList = before ++ c :: after ∧
        (∀ d ∈ before, InAlphabet d) ∧ ¬ InAlphabet c ∧
          before.length = i ∧ before.utf8Encode.size = i := by
  rw [tokenize_eq_error_iff]
  constructor
  · rintro ⟨hc, hstranger, hbefore⟩
    rcases List.getElem?_eq_some_iff.mp hc with ⟨hi, hget⟩
    have hlength : (source.toList.take i).length = i := List.length_take_of_le (Nat.le_of_lt hi)
    refine ⟨source.toList.take i, source.toList.drop (i + 1), ?_, hbefore, hstranger, hlength, ?_⟩
    · rw [← hget, ← List.drop_eq_getElem_cons hi, List.take_append_drop]
    · rw [size_utf8Encode hbefore, hlength]
  · rintro ⟨before, after, hsource, hbefore, hstranger, rfl, -⟩
    rw [hsource, isFirstStranger_append_of_forall hbefore]
    exact ⟨0, rfl, (isFirstStranger_cons hstranger).mpr ⟨rfl, rfl⟩⟩

/-- A source with a stranger has a lexical error. -/
theorem exists_tokenize_eq_error {source : String}
    (hsome : ¬ ∀ d ∈ source.toList, InAlphabet d) :
    ∃ c i, tokenize source = .error (.unexpectedCharacter c i) := by
  cases htokens : tokenize source with
  | ok tokens => exact absurd (tokenize_eq_ok_iff.mp htokens).1 hsome
  | error error =>
      cases error with
      | unexpectedCharacter c i => exact ⟨c, i, rfl⟩

end Calculator
