/-!
# Numerals

A numeral is an optional sign, one or more decimal digits, and nothing else.  It
is read from the left: the first character that is no digit, and the first digit
that takes the number out of range, end the reading, whichever comes first.  The
magnitude is kept exact, so the limit can be tested after each digit.
-/

namespace Calculator
namespace Numeral

/-- The reasons for which a text is not the numeral of a value. -/
inductive Fault where
  /-- No digit at all, or a character that is no digit. -/
  | malformed
  /-- A number above the greatest value. -/
  | tooLarge
  /-- A number below the least value. -/
  | tooSmall
deriving DecidableEq

/-- The number that a decimal digit stands for. -/
def digitValue (digit : Char) : Nat :=
  digit.toNat - '0'.toNat

/-- Append digits to a magnitude that must stay within a limit.  The fault
`beyond` is reported for the digit that passes the limit. -/
def appendDigits (limit : Nat) (beyond : Fault) (magnitude : Nat) :
    List Char → Except Fault Nat
  | [] => .ok magnitude
  | c :: rest =>
      if c.isDigit then
        let extended := magnitude * 10 + digitValue c
        if extended ≤ limit then appendDigits limit beyond extended rest
        else .error beyond
      else .error .malformed

/-- Read a magnitude within a limit, which takes at least one digit. -/
def readMagnitude (limit : Nat) (beyond : Fault) : List Char → Except Fault Nat
  | [] => .error .malformed
  | digits => appendDigits limit beyond 0 digits

/-- The greatest magnitude of a value that is not negative. -/
def positiveLimit : Nat :=
  Int64.maxValue.toInt.natAbs

/-- The greatest magnitude of a negative value. -/
def negativeLimit : Nat :=
  Int64.minValue.toInt.natAbs

/-- Read the characters of a numeral. -/
def readChars : List Char → Except Fault Int64
  | '-' :: digits =>
      (readMagnitude negativeLimit .tooSmall digits).map fun magnitude => Int64.ofInt (-magnitude)
  | '+' :: digits =>
      (readMagnitude positiveLimit .tooLarge digits).map fun magnitude => Int64.ofInt magnitude
  | digits =>
      (readMagnitude positiveLimit .tooLarge digits).map fun magnitude => Int64.ofInt magnitude

/-- Read the value of a numeral. -/
def read (text : String) : Except Fault Int64 :=
  readChars text.toList

end Numeral
end Calculator
