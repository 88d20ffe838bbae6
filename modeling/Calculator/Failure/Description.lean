import Calculator.Failure
import Calculator.Text.Description
import Calculator.Text.Quoted

/-!
# Descriptions of failures

A description names the cause of a failure and everything that the failure
carries.  Characters and texts are quoted in it, unlike in a message.
-/

namespace Calculator

/-- The description of a lexical error. -/
def LexicalError.description : LexicalError → Description
  | unexpectedCharacter character position =>
      .record "UnexpectedCharacter"
        [("character", quotedChar character), ("position", toString position)]

/-- The description of a grammatical error. -/
def GrammarError.description : GrammarError → Description
  | unexpectedToken text position => quoting "UnexpectedToken" text position
  | unexpectedEnd position =>
      .record "UnexpectedEndOfInput" [("position", toString position)]
  | literalTooLarge text position => quoting "LiteralTooLarge" text position
  | nestingTooDeep position =>
      .record "NestingTooDeep" [("position", toString position)]
  | malformedLiteral text position => quoting "InvalidLiteral" text position
where
  /-- The record of a cause that quotes a token. -/
  quoting (name text : String) (position : Nat) : Description :=
    .record name [("token", quotedString text), ("position", toString position)]

/-- The description of an arithmetic error. -/
def ArithmeticError.description : ArithmeticError → Description
  | divisionByZero => .word "DivisionByZero"
  | overflow lhs symbol rhs =>
      .record "Overflow"
        [("lhs", toString lhs.toInt), ("op", quotedChar symbol), ("rhs", toString rhs.toInt)]

namespace Failure

/-- The description of the cause alone. -/
def causeDescription : Failure → Description
  | lexical error => error.description
  | grammatical error => error.description
  | arithmetic error => error.description

/-- The name of the stage at which a failure arises. -/
def stage : Failure → String
  | lexical _ => "Lex"
  | grammatical _ => "Parse"
  | arithmetic _ => "Arithmetic"

/-- The description of a failure: its stage around its cause. -/
def description (failure : Failure) : Description :=
  .wrapped failure.stage failure.causeDescription

end Failure

/-- The description of the result of an evaluation. -/
def describeResult : Except Failure Int64 → Description
  | .ok value => .wrapped "Ok" (.word (toString value.toInt))
  | .error failure => .wrapped "Err" failure.description

end Calculator
