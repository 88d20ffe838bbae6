/-!
# Tokens

A token is a kind together with the text it was made from.  The kind alone
decides what a token does; the text of a number says which number it is, and the
text of any token is what a report quotes.  Tokens need not come from a source
text, so any kind may carry any text.
-/

namespace Calculator

/-- The kinds of tokens. -/
inductive Token.Kind where
  | plus
  | minus
  | star
  | slash
  | number
  /-- The marker that closes a token sequence.  No character stands for it. -/
  | endOfInput
deriving DecidableEq

namespace Token.Kind

/-- The name under which listings and the log show a kind. -/
def label : Kind → String
  | plus => "Plus"
  | minus => "Minus"
  | star => "Star"
  | slash => "Slash"
  | number => "Number"
  | endOfInput => "EndOfInput"

/-- The kind that a single operator character stands for. -/
def ofSymbol? : Char → Option Kind
  | '+' => some plus
  | '-' => some minus
  | '*' => some star
  | '/' => some slash
  | _ => none

end Token.Kind

/-- A classified piece of text. -/
structure Token where
  kind : Token.Kind
  text : String
deriving DecidableEq

namespace Token

/-- The closing marker, which has no text. -/
def endOfInput : Token where
  kind := .endOfInput
  text := ""

end Token

end Calculator
