import Calculator.Grammar.Descent

/-!
# Evaluation

Evaluating a token sequence is reading one expression from its front.  Evaluating
a source is splitting it into tokens and evaluating those.  An evaluation keeps
the log beside the result, whether there is a value or a failure.

A source of spaces only has the value zero.  A lexical error anywhere in a source
prevails over everything to its left, as all tokens are found before any is used.
-/

namespace Calculator

/-- The result of an evaluation and what happened on the way to it. -/
structure Evaluation where
  result : Except Failure Int64
  log : Array Event

/-- The lexemes of a scan as events. -/
def Scan.log (scan : Scan) : Array Event :=
  (scan.lexemes.map Event.lexed).toArray

/-- Results are the same when they carry the same value or the same cause. -/
instance decidableEqResult {ε α : Type} [DecidableEq ε] [DecidableEq α] :
    DecidableEq (Except ε α)
  | .ok a, .ok b => decidable_of_iff (a = b) (by simp)
  | .error a, .error b => decidable_of_iff (a = b) (by simp)
  | .ok _, .error _ => isFalse nofun
  | .error _, .ok _ => isFalse nofun

namespace Evaluation

/-- The evaluation that a step amounts to, if it was not refused anything. -/
def ofStep (result : EStateM.Result Interrupt Session Int64)
    (hsafe : ∀ position after, result ≠ .error (.unreadRefused position) after) : Evaluation :=
  match result with
  | .ok value after => ⟨.ok value, after.log⟩
  | .error (.failure cause) after => ⟨.error cause, after.log⟩
  | .error (.unreadRefused position) after => absurd rfl (hsafe position after)

/-- The value of a step is its answer. -/
theorem ofStep_eq_ok_iff {result : EStateM.Result Interrupt Session Int64}
    {hsafe : ∀ position after, result ≠ .error (.unreadRefused position) after} {value : Int64} :
    (ofStep result hsafe).result = .ok value ↔ ∃ after, result = .ok value after := by
  rcases result with _ | ⟨_ | position⟩
  · simp [ofStep]
  · simp [ofStep]
  · exact absurd rfl (hsafe position _)

/-- The failure of a step is that which interrupted it. -/
theorem ofStep_eq_error_iff {result : EStateM.Result Interrupt Session Int64}
    {hsafe : ∀ position after, result ≠ .error (.unreadRefused position) after} {cause : Failure} :
    (ofStep result hsafe).result = .error cause ↔
      ∃ after, result = .error (.failure cause) after := by
  rcases result with _ | ⟨_ | position⟩
  · simp [ofStep]
  · simp [ofStep]
  · exact absurd rfl (hsafe position _)

/-- Evaluate the expression behind a cursor. -/
def ofCursor (cursor : Cursor) : Evaluation :=
  ofStep (Parser.ofRule .expression (Session.ofCursor cursor))
    fun _ _ => Parser.ofRule_ne_unreadRefused

/-- Evaluate a token sequence. -/
def ofTokens (tokens : List Token) : Evaluation :=
  ofCursor (Cursor.ofTokens tokens)

/-- Evaluate a source. -/
def ofSource (source : String) : Evaluation :=
  let scan := Scan.ofSource source
  match scan.tokens with
  | .error error => ⟨.error (.lexical error), scan.log⟩
  | .ok tokens =>
      let evaluation := ofTokens tokens
      match evaluation.result with
      | .error cause => ⟨.error cause, scan.log ++ evaluation.log⟩
      | .ok value => ⟨.ok value, (scan.log ++ evaluation.log).push (.evaluated source value)⟩

end Evaluation

/-- Evaluate a token sequence under a given nesting limit. -/
def evaluateTokensWithin (nestingLimit : Option Nat) (tokens : List Token) :
    Except Failure Int64 :=
  (Evaluation.ofCursor (Cursor.ofTokensWithin nestingLimit tokens)).result

/-- Evaluate a token sequence. -/
def evaluateTokens (tokens : List Token) : Except Failure Int64 :=
  (Evaluation.ofTokens tokens).result

/-- Evaluate a source. -/
def evaluate (source : String) : Except Failure Int64 :=
  (Evaluation.ofSource source).result

/-- The value of a token sequence is found by reading one expression. -/
theorem evaluateTokensWithin_eq_ok_iff {nestingLimit : Option Nat} {tokens : List Token}
    {value : Int64} :
    evaluateTokensWithin nestingLimit tokens = .ok value ↔
      ∃ after, Parser.expression
        (Session.ofCursor (Cursor.ofTokensWithin nestingLimit tokens)) = .ok value after :=
  Evaluation.ofStep_eq_ok_iff

/-- The failure of a token sequence is found by reading one expression. -/
theorem evaluateTokensWithin_eq_error_iff {nestingLimit : Option Nat} {tokens : List Token}
    {cause : Failure} :
    evaluateTokensWithin nestingLimit tokens = .error cause ↔
      ∃ after, Parser.expression
        (Session.ofCursor (Cursor.ofTokensWithin nestingLimit tokens)) =
          .error (.failure cause) after :=
  Evaluation.ofStep_eq_error_iff

/-- A source is evaluated by way of its tokens. -/
theorem evaluate_eq (source : String) :
    evaluate source =
      match tokenize source with
      | .ok tokens => evaluateTokens tokens
      | .error error => .error (.lexical error) := by
  unfold evaluate Evaluation.ofSource tokenize evaluateTokens
  cases hfound : (Scan.ofSource source).tokens with
  | error error => simp [hfound]
  | ok tokens => cases hended : (Evaluation.ofTokens tokens).result <;> simp [hfound, hended]

end Calculator
