import Calculator.Proofs.Stranger

/-!
# Where lexemes stand

A scan marks each lexeme with the place at which the source spells it.  All characters that a
scan passes over are of the alphabet, and these take one byte each, so the place is the same
in characters and in bytes.

Main results:

- Theorem `Scan.exists_marks_readFrom`: a scan of a text of the alphabet marks every byte that
  is no space.
- Theorem `Scan.readFrom_append_stranger`: a scan finds the same in front of a stranger as at
  the end of a source.
-/

namespace Calculator

/-! ## Bytes -/

section Bytes

variable {text before after : List Char} {source : String}

/-- The bytes of a part of a source stand where its characters do. -/
theorem extract_toUTF8 (hsource : source.toList = before ++ text ++ after)
    (hbefore : ∀ c ∈ before, InAlphabet c) (htext : ∀ c ∈ text, InAlphabet c) :
    source.toUTF8.extract before.length (before.length + text.length) =
      (String.ofList text).toUTF8 := by
  have hbytes : source.toUTF8 = before.utf8Encode ++ (text.utf8Encode ++ after.utf8Encode) := by
    rw [String.toUTF8_eq_toByteArray, ← String.ofList_toList (s := source), hsource,
      String.toByteArray_ofList, List.utf8Encode_append, List.utf8Encode_append,
      ByteArray.append_assoc]
  have hbehind := @ByteArray.extract_append_size_add before.utf8Encode
    (text.utf8Encode ++ after.utf8Encode) 0 text.utf8Encode.size
  rw [hbytes, ← size_utf8Encode hbefore, ← size_utf8Encode htext, String.toUTF8_eq_toByteArray,
    String.toByteArray_ofList]
  rw [Nat.add_zero] at hbehind
  rw [hbehind, ByteArray.extract_append_eq_left rfl]

end Bytes

/-! ## Marks -/

/-- From a byte of the source up to another, the lexemes stand in order where their texts are
spelled, and all bytes outside of them are spaces. -/
structure Marks (source : String) (first : Nat) (lexemes : List Lexeme) (last : Nat) : Prop where
  spelled : ∀ lexeme ∈ lexemes,
    source.toUTF8.extract lexeme.start lexeme.stop = lexeme.token.text.toUTF8
  within : ∀ lexeme ∈ lexemes,
    first ≤ lexeme.start ∧ lexeme.start < lexeme.stop ∧ lexeme.stop ≤ last
  apart : lexemes.Pairwise fun lexeme later => lexeme.stop ≤ later.start
  spaces : ∀ i, first ≤ i → i < last →
    (∃ lexeme ∈ lexemes, lexeme.start ≤ i ∧ i < lexeme.stop) ∨
      source.toUTF8.extract i (i + 1) = " ".toUTF8

namespace Marks

variable {source : String} {first last : Nat} {lexeme : Lexeme} {lexemes : List Lexeme}

theorem nil : Marks source first [] first where
  spelled := by simp
  within := by simp
  apart := .nil
  spaces := fun _ hfirst hlast => absurd hlast (Nat.not_lt.mpr hfirst)

/-- A space in front of what is marked. -/
theorem space (hspace : source.toUTF8.extract first (first + 1) = " ".toUTF8)
    (hmarks : Marks source (first + 1) lexemes last) : Marks source first lexemes last where
  spelled := hmarks.spelled
  within := fun lexeme hlexeme =>
    ⟨Nat.le_of_succ_le (hmarks.within lexeme hlexeme).1, (hmarks.within lexeme hlexeme).2⟩
  apart := hmarks.apart
  spaces := by
    intro i hfirst hlast
    rcases Nat.eq_or_lt_of_le hfirst with rfl | hlater
    · exact .inr hspace
    · exact hmarks.spaces i hlater hlast

/-- A lexeme in front of what is marked. -/
theorem cons
    (hspelled : source.toUTF8.extract lexeme.start lexeme.stop = lexeme.token.text.toUTF8)
    (hstart : lexeme.start < lexeme.stop) (hstop : lexeme.stop ≤ last)
    (hmarks : Marks source lexeme.stop lexemes last) :
    Marks source lexeme.start (lexeme :: lexemes) last where
  spelled := List.forall_mem_cons.mpr ⟨hspelled, hmarks.spelled⟩
  within := by
    rw [List.forall_mem_cons]
    refine ⟨⟨Nat.le_refl _, hstart, hstop⟩, fun later hlater => ?_⟩
    rcases hmarks.within later hlater with ⟨hle, hbounds⟩
    exact ⟨Nat.le_trans (Nat.le_of_lt hstart) hle, hbounds⟩
  apart := List.pairwise_cons.mpr ⟨fun later hlater => (hmarks.within later hlater).1, hmarks.apart⟩
  spaces := by
    intro i hfirst hlast
    by_cases hi : i < lexeme.stop
    · exact .inl ⟨lexeme, List.mem_cons_self, hfirst, hi⟩
    · rcases hmarks.spaces i (Nat.le_of_not_lt hi) hlast with ⟨later, hlater, hcovers⟩ | hspace
      · exact .inl ⟨later, List.mem_cons_of_mem _ hlater, hcovers⟩
      · exact .inr hspace

end Marks

namespace Scan

variable {source : String} {found : List Lexeme} {before front after : List Char}

/-- What is marked behind the text of a token, and the token, are marked in a row. -/
theorem marks_token {token : Token} {text rest : List Char} {lexemes : List Lexeme}
    (htoken : token.text = String.ofList text)
    (hsource : source.toList = before ++ (text ++ rest) ++ after)
    (hbefore : ∀ c ∈ before, InAlphabet c) (htext : ∀ c ∈ text, InAlphabet c) (hne : text ≠ [])
    (hmarks : Marks source (before ++ text).length lexemes
      ((before ++ text).length + rest.length)) :
    Marks source before.length (⟨token, before.length⟩ :: lexemes)
      (before.length + (text ++ rest).length) := by
  have hstop : (before ++ text).length = Lexeme.stop ⟨token, before.length⟩ := by
    rw [Lexeme.stop, htoken, String.length_ofList, List.length_append]
  have hspelled := @extract_toUTF8 text before (rest ++ after) source
    (by simpa using hsource) hbefore htext
  rw [← List.length_append, hstop, ← htoken] at hspelled
  have hpos : before.length < Lexeme.stop ⟨token, before.length⟩ := by
    rw [← hstop, List.length_append]
    exact Nat.lt_add_of_pos_right (List.length_pos_iff.mpr hne)
  rw [hstop] at hmarks
  rw [List.length_append, ← Nat.add_assoc, ← List.length_append, hstop]
  exact @Marks.cons source _ ⟨token, before.length⟩ lexemes hspelled hpos (Nat.le_add_right _ _)
    hmarks

/-- A scan of a text of the alphabet marks every byte that is no space. -/
theorem exists_marks_readFrom (hsource : source.toList = before ++ front ++ after)
    (hbefore : ∀ c ∈ before, InAlphabet c) (hfront : ∀ c ∈ front, InAlphabet c) :
    ∃ lexemes, (readFrom before.length found front).lexemes = found.reverse ++ lexemes ∧
      Marks source before.length lexemes (before.length + front.length) := by
  induction front using runs_induction generalizing before found with
  | nil => exact ⟨[], by simp [readFrom_nil], .nil⟩
  | space rest ih =>
      rw [List.forall_mem_cons] at hfront
      have hspace : source.toUTF8.extract before.length (before.length + 1) = " ".toUTF8 := by
        rw [show " " = String.ofList [' '] from rfl]
        exact @extract_toUTF8 [' '] before (rest ++ after) source (by simpa using hsource)
          hbefore (by simpa using hfront.1)
      rcases @ih found (before ++ [' ']) (by simpa using hsource)
        (by simpa [or_imp, forall_and] using ⟨hbefore, hfront.1⟩) hfront.2 with
        ⟨lexemes, hlexemes, hmarks⟩
      rw [List.length_append] at hlexemes hmarks
      refine ⟨lexemes, by rw [readFrom_space]; exact hlexemes, .space hspace ?_⟩
      rw [List.length_cons, Nat.add_comm rest.length, ← Nat.add_assoc]
      exact hmarks
  | symbol c kind rest hkind ih =>
      rw [List.forall_mem_cons] at hfront
      have htext : c.toString = String.ofList [c] := by simp
      rcases @ih (⟨⟨kind, c.toString⟩, before.length⟩ :: found) (before ++ [c])
        (by simpa using hsource) (List.forall_mem_append.mpr ⟨hbefore, by simpa using hfront.1⟩)
        hfront.2 with ⟨lexemes, hlexemes, hmarks⟩
      refine ⟨⟨⟨kind, c.toString⟩, before.length⟩ :: lexemes, ?_, ?_⟩
      · rw [readFrom_symbol hkind]
        simpa using hlexemes
      · exact @marks_token source before after ⟨kind, c.toString⟩ [c] rest lexemes htext hsource
          hbefore (by simpa using hfront.1) (by simp) hmarks
  | stranger c rest hstranger ih => exact absurd (hfront c (by simp)) hstranger
  | digits digits rest hne hdigits hhead ih =>
      rw [List.forall_mem_append] at hfront
      rcases @ih (⟨⟨.number, String.ofList digits⟩, before.length⟩ :: found) (before ++ digits)
        (by simpa using hsource) (List.forall_mem_append.mpr ⟨hbefore, hfront.1⟩) hfront.2 with
        ⟨lexemes, hlexemes, hmarks⟩
      refine ⟨⟨⟨.number, String.ofList digits⟩, before.length⟩ :: lexemes, ?_, ?_⟩
      · rw [readFrom_digits_append hne hdigits hhead]
        simpa using hlexemes
      · exact marks_token rfl hsource hbefore hfront.1 hne hmarks

/-- A scan finds the same in front of a stranger as at the end of a source. -/
theorem readFrom_append_stranger {c : Char} {rest : List Char} {position : Nat}
    (hfront : ∀ d ∈ front, InAlphabet d) (hstranger : ¬ InAlphabet c) :
    (readFrom position found (front ++ c :: rest)).lexemes =
      (readFrom position found front).lexemes := by
  induction front using runs_induction generalizing position found with
  | nil => rw [List.nil_append, readFrom_stranger hstranger, readFrom_nil]
  | space front ih =>
      rw [List.forall_mem_cons] at hfront
      rw [List.cons_append, readFrom_space, readFrom_space, ih hfront.2]
  | symbol d kind front hkind ih =>
      rw [List.forall_mem_cons] at hfront
      rw [List.cons_append, readFrom_symbol hkind, readFrom_symbol hkind, ih hfront.2]
  | stranger d front hd ih => exact absurd (hfront d (by simp)) hd
  | digits digits front hne hdigits hhead ih =>
      rw [List.forall_mem_append] at hfront
      have hhead' : ∀ d ∈ (front ++ c :: rest).head?, d.isDigit = false := by
        cases front with
        | nil =>
            rw [List.nil_append]
            rintro _ ⟨⟩
            exact Bool.eq_false_iff.mpr fun hdigit => hstranger (.inl hdigit)
        | cons d front => exact hhead
      rw [List.append_assoc, readFrom_digits_append hne hdigits hhead',
        readFrom_digits_append hne hdigits hhead, ih hfront.2]

/-- What a scan finds up to the first stranger of a source, or to its end. -/
theorem marks_ofSource {rest : List Char} (hsource : source.toList = front ++ rest)
    (hfront : ∀ c ∈ front, InAlphabet c) (hrest : ∀ c ∈ rest.head?, ¬ InAlphabet c) :
    Marks source 0 (ofSource source).lexemes front.length ∧
      (ofSource source).lexemes.map Lexeme.token = piecesOf front := by
  have hsame : (ofSource source).lexemes = (readFrom 0 [] front).lexemes := by
    rw [ofSource, hsource]
    cases rest with
    | nil => rw [List.append_nil]
    | cons c rest => exact readFrom_append_stranger hfront (hrest c rfl)
  rw [hsame]
  refine ⟨?_, by simpa using @lexemes_map_token 0 [] front hfront⟩
  rcases @exists_marks_readFrom source [] [] front rest (by simpa using hsource) (by simp)
    hfront with ⟨lexemes, hlexemes, hmarks⟩
  rw [List.length_nil, Nat.zero_add] at hmarks
  rw [show readFrom 0 [] front = readFrom ([] : List Char).length [] front from rfl, hlexemes]
  exact hmarks

end Scan

end Calculator
