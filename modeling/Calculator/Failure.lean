import Calculator.Arithmetic

/-!
# Failures

An evaluation fails for a cause: a character that belongs to no token, a token
where the grammar does not allow it, or an operation without a result.  The
cause is the value; its wording is one function on it.

A lexical position counts characters of the source.  A grammatical position
counts the tokens read so far, so it stands just past the token in question.
-/

namespace Calculator

/-- The reasons for which a source cannot be split into tokens. -/
inductive LexicalError where
  /-- A character that is no digit, operator or space. -/
  | unexpectedCharacter (character : Char) (position : Nat)
deriving DecidableEq

/-- The reasons for which a token sequence has no reading. -/
inductive GrammarError where
  /-- A token of a kind that cannot stand where it does. -/
  | unexpectedToken (text : String) (position : Nat)
  /-- A sequence that is over before its closing marker. -/
  | unexpectedEnd (position : Nat)
  /-- A numeral above the greatest value. -/
  | literalTooLarge (text : String) (position : Nat)
  /-- More negations open at once than the nesting limit allows. -/
  | nestingTooDeep (position : Nat)
  /-- A number whose text is no numeral of a value. -/
  | malformedLiteral (text : String) (position : Nat)
deriving DecidableEq

/-- The causes for which an evaluation fails. -/
inductive Failure where
  | lexical (error : LexicalError)
  | grammatical (error : GrammarError)
  | arithmetic (error : ArithmeticError)
deriving DecidableEq

/-! ## Messages -/

/-- The wording of a lexical error.  The character is shown as it is. -/
def LexicalError.message : LexicalError → String
  | unexpectedCharacter character position =>
      "Unexpected character: '" ++ character.toString ++ "' at position: " ++
        toString position ++ "."

/-- The wording of a grammatical error.  The text is shown as it is. -/
def GrammarError.message : GrammarError → String
  | unexpectedToken text position =>
      "Unexpected token: '" ++ text ++ "' at position: " ++ toString position ++ "."
  | unexpectedEnd position =>
      "Unexpected end of input at position: " ++ toString position ++ "."
  | literalTooLarge text position =>
      "Literal '" ++ text ++ "' is too large at position: " ++ toString position ++ "."
  | nestingTooDeep position =>
      "Expression is nested too deeply at position: " ++ toString position ++ "."
  | malformedLiteral text position =>
      "Invalid number literal: '" ++ text ++ "' at position: " ++ toString position ++ "."

/-- The wording of an arithmetic error. -/
def ArithmeticError.message : ArithmeticError → String
  | divisionByZero => "Division by zero."
  | overflow lhs symbol rhs =>
      "Integer overflow while trying to compute " ++ toString lhs.toInt ++ " " ++
        symbol.toString ++ " " ++ toString rhs.toInt ++ "."

/-- The wording of a failure is that of its cause. -/
def Failure.message : Failure → String
  | lexical error => error.message
  | grammatical error => error.message
  | arithmetic error => error.message

end Calculator
