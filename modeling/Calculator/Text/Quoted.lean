/-!
# Quoted text

Quoted text shows a character or a string on one line, without losing anything:
the characters that would end the quotation, start an escape or control a
terminal are written as escapes, and all others as they are.

Characters that cannot be seen for another reason, such as unassigned ones and marks
that combine with the character in front of them, have no escapes here.  A text of
digits, operators and spaces holds none of them.
-/

namespace Calculator
namespace Quoted

/-- A character is a control character when it belongs to one of the two blocks
of controls, those below the space and those from delete to the end of the
second block. -/
def isControl (c : Char) : Bool :=
  c.toNat < 0x20 || (0x7f ≤ c.toNat && c.toNat < 0xa0)

/-- The number of a character in hexadecimal digits, without padding. -/
def codePoint (c : Char) : List Char :=
  '\\' :: 'u' :: '\x7b' :: (Nat.toDigits 16 c.toNat ++ ['\x7d'])

/-- The written form of one character between two quotes of the given kind.  Only control
characters are taken for unprintable, and a combining mark is written as it is. -/
def escape (quote c : Char) : List Char :=
  if c = quote ∨ c = '\\' then ['\\', c]
  else if c = '\x00' then ['\\', '0']
  else if c = '\t' then ['\\', 't']
  else if c = '\n' then ['\\', 'n']
  else if c = '\r' then ['\\', 'r']
  else if isControl c then codePoint c
  else [c]

end Quoted

/-- A string in double quotes. -/
def quotedString (text : String) : String :=
  String.ofList ('"' :: (text.toList.flatMap (Quoted.escape '"') ++ ['"']))

/-- A character in single quotes. -/
def quotedChar (c : Char) : String :=
  String.ofList ('\'' :: (Quoted.escape '\'' c ++ ['\'']))

end Calculator
