import Calculator.Proofs.Listing
import Mathlib.Data.List.DropRight

/-!
# Runs on an expression

The line ends that close a text make no difference to a run, nor does it matter whether the
text is an argument or stands in a file.  A run shows the value of the text that is left, or
its tokens one a line, and if there are none it shows nothing but the failure.

Main results:

- Theorem `Trims.dropLineEnds_eq`: a text has one rest without line ends at its end.
- Theorem `Invocation.respond_ofFile`: a file is as good as an argument.
- Theorem `showText_spacedTexts`: the texts of the tokens are answered as the text itself.
-/

namespace Calculator
namespace CommandLine

/-! ## Line ends -/

/-- The rest is the text less all line ends that it closes with. -/
structure Trims (text rest : String) : Prop where
  exists_eq_append : ∃ ends, text = rest ++ ends ∧ ∀ c ∈ ends.toList, isLineEnd c = true
  last_not : ∀ c ∈ rest.toList.getLast?, isLineEnd c = false

section LineEnds

variable {text rest ends : String}

theorem dropLineEnds_eq_rdropWhile (text : String) :
    dropLineEnds text = String.ofList (text.toList.rdropWhile isLineEnd) :=
  rfl

/-- Line ends behind a text are dropped. -/
theorem dropLineEnds_append (hends : ∀ c ∈ ends.toList, isLineEnd c = true) :
    dropLineEnds (text ++ ends) = dropLineEnds text := by
  rw [dropLineEnds, dropLineEnds, String.toList_append, List.reverse_append,
    List.dropWhile_append_of_pos (by simpa using hends)]

/-- A text that closes with no line end is kept. -/
theorem dropLineEnds_of_last_not (hlast : ∀ c ∈ text.toList.getLast?, isLineEnd c = false) :
    dropLineEnds text = text := by
  rw [dropLineEnds_eq_rdropWhile, List.rdropWhile_eq_self_iff.mpr, String.ofList_toList]
  intro hne hend
  rw [hlast _ (List.getLast_mem_getLast? hne)] at hend
  cases hend

/-- Dropping the line ends is trimming. -/
theorem trims_dropLineEnds (text : String) : Trims text (dropLineEnds text) where
  exists_eq_append := by
    refine ⟨String.ofList (text.toList.rtakeWhile isLineEnd), ?_, ?_⟩
    · rw [dropLineEnds_eq_rdropWhile, ← String.ofList_append, List.rdropWhile_append_rtakeWhile,
        String.ofList_toList]
    · rw [String.toList_ofList]
      exact fun c hc => List.mem_rtakeWhile_imp hc
  last_not := by
    intro c hc
    rw [dropLineEnds, String.toList_ofList, List.getLast?_reverse] at hc
    have hhead := List.head?_dropWhile_not isLineEnd text.toList.reverse
    rw [Option.mem_def.mp hc] at hhead
    exact hhead

/-- A text has one rest without line ends at its end. -/
theorem Trims.dropLineEnds_eq (htrims : Trims text rest) : dropLineEnds text = rest := by
  rcases htrims.exists_eq_append with ⟨ends, rfl, hends⟩
  rw [dropLineEnds_append hends, dropLineEnds_of_last_not htrims.last_not]

end LineEnds

/-! ## Arguments and files -/

/-- A command line whose contents are an expression. -/
def Invocation.ofArgument (listTokens : Bool) (text : String) : Invocation where
  fromFile := false
  listTokens := listTokens
  contents := text

/-- A command line whose contents name a file. -/
def Invocation.ofFile (listTokens : Bool) (name : String) : Invocation where
  fromFile := true
  listTokens := listTokens
  contents := name

section Runs

variable {readFile : String → Option ByteArray} {listTokens : Bool} {x y z w name : String}

/-- A run on an argument answers for its text. -/
theorem Invocation.respond_ofArgument :
    (ofArgument listTokens x).respond readFile = showText listTokens x :=
  rfl

/-- A run on a file answers for the text in it. -/
theorem Invocation.respond_ofFile (hfile : readFile name = some x.toUTF8) :
    (ofFile listTokens name).respond readFile = showText listTokens x := by
  have htext : (ofFile listTokens name).text? readFile = some x := text?_of_fromFile rfl hfile
  unfold respond
  rw [htext]
  rfl

/-- Texts that are left the same are answered the same. -/
theorem showText_congr (hsame : dropLineEnds x = dropLineEnds y) :
    showText listTokens x = showText listTokens y := by
  rw [showText, showText, hsame]

/-- A run on a text is one on its rest. -/
theorem showText_of_trims (htrims : Trims x y) : showText listTokens x = showText listTokens y :=
  showText_congr (by rw [htrims.dropLineEnds_eq, dropLineEnds_of_last_not htrims.last_not])

/-- A text that can be split into tokens closes with no line end. -/
theorem dropLineEnds_of_tokenize {tokens : List Token} (htokens : tokenize x = .ok tokens) :
    dropLineEnds x = x := by
  have hall := (tokenize_eq_ok_iff.mp htokens).1
  exact dropLineEnds_of_last_not fun c hc =>
    isLineEnd_of_inAlphabet (hall c (List.mem_of_getLast? hc))

/-- The texts of the tokens of a text are answered as the text itself. -/
theorem showText_spacedTexts {tokens : List Token} (htokens : tokenize y = .ok tokens) :
    showText listTokens (spacedTexts tokens) = showText listTokens y := by
  have hspaced := tokenize_spacedTexts htokens
  rw [showText, showText, dropLineEnds_of_tokenize htokens, dropLineEnds_of_tokenize hspaced,
    showTokens, showTokens, showValue, showValue, evaluate_eq, evaluate_eq, htokens, hspaced]

/-- A line end that is not dropped is a stranger, so there is no answer. -/
theorem showText_of_lineEnd (hlast : dropLineEnds y = y)
    (hend : ∃ c ∈ y.toList, isLineEnd c = true) :
    ∃ c i, IsFirstStranger y.toList i c ∧
      ∀ listTokens, showText listTokens y =
        .failure (LexicalError.unexpectedCharacter c i).message := by
  have hsome : ¬ ∀ c ∈ y.toList, InAlphabet c := by
    intro hall
    rcases hend with ⟨c, hc, hlineEnd⟩
    rw [isLineEnd_of_inAlphabet (hall c hc)] at hlineEnd
    cases hlineEnd
  rcases exists_tokenize_eq_error hsome with ⟨c, i, herror⟩
  refine ⟨c, i, tokenize_eq_error_iff.mp herror, fun listTokens => ?_⟩
  rw [showText, hlast, showTokens, showValue, evaluate_eq, herror]
  cases listTokens <;> rfl

end Runs

/-- Runs agree, whether the text is an argument or in a file, with any line ends behind it.  The
text less its line ends has a value, which is all that is shown, or a failure, which is shown by
its message alone.  Its tokens are shown one a line if there are any, and then they can be read
back, and their texts with a space behind each are an expression that is answered the same.  A
line end that is left within the text is a failure, as any other stranger. -/
theorem runs_agree (readFile : String → Option ByteArray) (x : String) :
    (∀ listTokens w, (∀ c ∈ w.toList, isLineEnd c = true) →
      (Invocation.ofArgument listTokens (x ++ w)).respond readFile =
          (Invocation.ofArgument listTokens x).respond readFile ∧
        ∀ name, readFile name = some (x ++ w).toUTF8 →
          (Invocation.ofFile listTokens name).respond readFile =
            (Invocation.ofArgument listTokens x).respond readFile) ∧
    ∃ y, Trims x y ∧
      ((Invocation.ofArgument false x).respond readFile =
        match evaluate y with
        | .ok value => ⟨0, toString value.toInt ++ "\n", ""⟩
        | .error cause => ⟨1, "", cause.message ++ "\n"⟩) ∧
      (match tokenize y with
        | .ok tokens =>
            (Invocation.ofArgument true x).respond readFile =
                ⟨0, String.join (tokens.map tokenLine), ""⟩ ∧
              readListing? (String.join (tokens.map tokenLine)) = some tokens ∧
              ∀ listTokens,
                (Invocation.ofArgument listTokens
                  (String.intercalate " " (tokens.map Token.text))).respond readFile =
                  (Invocation.ofArgument listTokens y).respond readFile
        | .error error =>
            (Invocation.ofArgument true x).respond readFile = ⟨1, "", error.message ++ "\n"⟩) ∧
      ((∀ c ∈ y.toList, isLineEnd c = false) ∨
        ∃ c i, IsFirstStranger y.toList i c ∧
          ∀ listTokens, (Invocation.ofArgument listTokens x).respond readFile =
            ⟨1, "", (LexicalError.unexpectedCharacter c i).message ++ "\n"⟩) := by
  simp only [Invocation.respond_ofArgument]
  constructor
  · intro listTokens w hends
    have hsame : showText listTokens (x ++ w) = showText listTokens x :=
      showText_congr (dropLineEnds_append hends)
    exact ⟨hsame, fun name hfile => (Invocation.respond_ofFile hfile).trans hsame⟩
  · have htrims := trims_dropLineEnds x
    have hkept := dropLineEnds_of_last_not htrims.last_not
    refine ⟨dropLineEnds x, htrims, ?_, ?_, ?_⟩
    · show showValue (dropLineEnds x) = _
      unfold showValue
      cases evaluate (dropLineEnds x) <;> rfl
    · cases htokens : tokenize (dropLineEnds x) with
      | ok tokens =>
          refine ⟨?_, readListing?_join (inAlphabet_of_tokenize htokens),
            fun _ => showText_spacedTexts htokens⟩
          show showTokens (dropLineEnds x) = _
          rw [showTokens, htokens]
          rfl
      | error error =>
          show showTokens (dropLineEnds x) = _
          rw [showTokens, htokens]
          rfl
    · by_cases hinner : ∃ c ∈ (dropLineEnds x).toList, isLineEnd c = true
      · rcases showText_of_lineEnd hkept hinner with ⟨c, i, hstranger, hfailure⟩
        exact .inr ⟨c, i, hstranger, fun _ => (showText_of_trims htrims).trans (hfailure _)⟩
      · exact .inl (by simpa using hinner)

/-- The tokens of a file with empty lines at its end are those of an argument without. -/
theorem runs_agree_on_difference :
    (∀ c ∈ "\r\n\n".toList, isLineEnd c = true) ∧
      (Invocation.ofFile true "difference").respond
          (fun _ => some "2 - -3\r\n\n".toUTF8) =
        (Invocation.ofArgument true "2 - -3").respond (fun _ => some "2 - -3\r\n\n".toUTF8) ∧
      (Invocation.ofArgument true "2 - -3").respond (fun _ => some "2 - -3\r\n\n".toUTF8) =
        ⟨0, "Number \"2\"\nMinus \"-\"\nMinus \"-\"\nNumber \"3\"\nEndOfInput \"\"\n", ""⟩ := by
  have hends : ∀ c ∈ "\r\n\n".toList, isLineEnd c = true := by simp [isLineEnd]
  refine ⟨hends, ((runs_agree _ "2 - -3").1 true "\r\n\n" hends).2 "difference" rfl, ?_⟩
  have htokens : tokenize "2 - -3" = .ok [⟨.number, "2"⟩, ⟨.minus, "-"⟩, ⟨.minus, "-"⟩,
      ⟨.number, "3"⟩, Token.endOfInput] := tokenize_eq_ok_iff.mpr ⟨by simp [InAlphabet], rfl⟩
  rw [Invocation.respond_ofArgument, showText, if_pos rfl, dropLineEnds_of_tokenize htokens,
    showTokens, htokens]
  rfl

end CommandLine
end Calculator
