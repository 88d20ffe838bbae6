import Calculator.Failure
import Calculator.Token

/-!
# Lexemes

A lexeme is a token together with the place where the source spells it.  A scan
reads a source from the left: it passes over spaces, takes each operator character
as a token and each longest run of digits as one number, and stops at the first
character of any other sort.  What was found up to there is kept.

Every character in front of a lexeme is a space, an operator or a digit, one byte
each, so its place is the same counted in characters and in bytes.
-/

namespace Calculator

/-- A token and the number of characters in front of it. -/
structure Lexeme where
  token : Token
  start : Nat
deriving DecidableEq

/-- The place just past a lexeme. -/
def Lexeme.stop (lexeme : Lexeme) : Nat :=
  lexeme.start + lexeme.token.text.length

/-- What reading a source finds: the lexemes in order, and the obstacle that
ended the reading early, if there was one. -/
structure Scan where
  lexemes : List Lexeme
  obstacle : Option LexicalError
deriving DecidableEq

namespace Scan

/-- Read the characters from a position on.  The lexemes in front of it are given
with the latest first. -/
def readFrom (position : Nat) (found : List Lexeme) : List Char → Scan
  | [] => ⟨found.reverse, none⟩
  | c :: rest =>
      if c = ' ' then
        readFrom (position + 1) found rest
      else if c.isDigit then
        let digits := c :: rest.takeWhile Char.isDigit
        readFrom (position + digits.length)
          (⟨⟨.number, String.ofList digits⟩, position⟩ :: found)
          (rest.dropWhile Char.isDigit)
      else
        match Token.Kind.ofSymbol? c with
        | some kind =>
            readFrom (position + 1) (⟨⟨kind, c.toString⟩, position⟩ :: found) rest
        | none => ⟨found.reverse, some (.unexpectedCharacter c position)⟩
termination_by characters => characters.length
decreasing_by
  · simp
  · exact Nat.lt_succ_of_le (List.dropWhile_suffix _).length_le
  · simp

/-- Read a whole source. -/
def ofSource (source : String) : Scan :=
  readFrom 0 [] source.toList

/-- The tokens of a source that was read to its end, closed by the marker. -/
def tokens (scan : Scan) : Except LexicalError (List Token) :=
  match scan.obstacle with
  | none => .ok (scan.lexemes.map Lexeme.token ++ [Token.endOfInput])
  | some error => .error error

end Scan

/-- Split a source into tokens. -/
def tokenize (source : String) : Except LexicalError (List Token) :=
  (Scan.ofSource source).tokens

end Calculator
