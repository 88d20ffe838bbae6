import Calculator.Lexeme
import Calculator.Text.Quoted

/-!
# Events

An event is one thing that happened on the way to a value: a lexeme was found, a
rule of the grammar was entered, a source was given its value.  The log of an
evaluation lists its events in order.  How grave an event is, where it belongs
and how it is worded are functions on it.
-/

namespace Calculator

/-- The rules of the grammar. -/
inductive Rule where
  | expression
  | sum
  | product
  | unary
deriving DecidableEq

/-- The name of a rule in the log. -/
def Rule.label : Rule → String
  | expression => "expression"
  | sum => "sum"
  | product => "product"
  | unary => "unary"

/-- How much of a log a reader has to ask for to see an event. -/
inductive Severity where
  | debug
  | trace
deriving DecidableEq

/-- The name of a severity in the log. -/
def Severity.label : Severity → String
  | debug => "DEBUG"
  | trace => "TRACE"

/-- The things that happen on the way to a value. -/
inductive Event where
  /-- A lexeme was found in the source. -/
  | lexed (lexeme : Lexeme)
  /-- A rule was entered at a cursor position. -/
  | entered (rule : Rule) (position : Nat)
  /-- A source was given its value. -/
  | evaluated (source : String) (value : Int64)
deriving DecidableEq

namespace Event

/-- The value of a source is of more interest than the steps toward it. -/
def severity : Event → Severity
  | lexed _ => .trace
  | entered _ _ => .trace
  | evaluated _ _ => .debug

/-- The part of the program to which an event belongs. -/
def target : Event → String
  | lexed _ => "intcalc::interpreter::lexer"
  | entered .expression _ => "intcalc::interpreter::parser::core"
  | entered .sum _ => "intcalc::interpreter::parser::binary"
  | entered .product _ => "intcalc::interpreter::parser::binary"
  | entered .unary _ => "intcalc::interpreter::parser::unary"
  | evaluated _ _ => "intcalc"

/-- The wording of an event. -/
def message : Event → String
  | lexed lexeme =>
      "lexed " ++ lexeme.token.kind.label ++ " " ++ quotedString lexeme.token.text ++ " at " ++
        toString lexeme.start ++ ".." ++ toString lexeme.stop
  | entered rule position => rule.label ++ " at " ++ toString position
  | evaluated source value => quotedString source ++ " = " ++ toString value.toInt

end Event

end Calculator
