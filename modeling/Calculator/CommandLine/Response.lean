import Calculator.CommandLine.Request
import Calculator.Evaluation

/-!
# Responses of the command line

A command line is answered by an exit status and by what is written to the two
output streams.  The expression is the contents, or the text of the file that the
contents name, less the line ends it closes with.  Its value or its tokens are
written only when they are all known, so a failure leaves nothing but its message.

How the arguments are read, and what is said of those that are not accepted, is left
open in `respondBy`; `respond` fixes both.
-/

namespace Calculator
namespace CommandLine

/-- What a run of the program leaves behind. -/
structure Response where
  status : Nat
  stdout : String
  stderr : String
deriving DecidableEq

namespace Response

/-- A run that succeeds. -/
def success (stdout : String) : Response where
  status := 0
  stdout := stdout
  stderr := ""

/-- A run that fails with a message. -/
def failure (message : String) : Response where
  status := 1
  stdout := ""
  stderr := message ++ "\n"

/-- A run whose command line is not accepted, with the text that says why. -/
def misuse (usage : String) : Response where
  status := 2
  stdout := ""
  stderr := usage

end Response

/-! ## Information -/

/-- The text that explains the command line. -/
def helpText : String :=
  String.intercalate "\n"
    [ "A small integer arithmetic expression evaluator with a fused recursive-descent parser.",
      "",
      "Usage: intcalc [OPTIONS] <CONTENTS>",
      "",
      "Arguments:",
      "  <CONTENTS>  ",
      "",
      "Options:",
      "  -f, --file     Tells intcalc to read the expression from a file instead",
      "  -t, --tokens   Prints the token stream instead of evaluating it",
      "  -h, --help     Print help",
      "  -V, --version  Print version",
      "" ]

/-- The text that names the version. -/
def versionText : String :=
  "intcalc 0.1.0\n"

/-! ## Expressions -/

/-- The characters that end a line. -/
def isLineEnd (c : Char) : Bool :=
  c = '\n' || c = '\r'

/-- A text less the line ends it closes with. -/
def dropLineEnds (text : String) : String :=
  String.ofList (text.toList.reverse.dropWhile isLineEnd).reverse

/-- The line that lists a token. -/
def tokenLine (token : Token) : String :=
  token.kind.label ++ " " ++ quotedString token.text ++ "\n"

/-- Answer with the value of an expression. -/
def showValue (expression : String) : Response :=
  match evaluate expression with
  | .ok value => .success (toString value.toInt ++ "\n")
  | .error cause => .failure cause.message

/-- Answer with the tokens of an expression, one a line. -/
def showTokens (expression : String) : Response :=
  match tokenize expression with
  | .ok tokens => .success (String.join (tokens.map tokenLine))
  | .error error => .failure error.message

/-- Answer for a text that holds an expression. -/
def showText (listTokens : Bool) (text : String) : Response :=
  if listTokens then showTokens (dropLineEnds text) else showValue (dropLineEnds text)

/-! ## Runs -/

/-- The text to evaluate: the contents, or what the named file holds if it can be
read and is text. -/
def Invocation.text? (invocation : Invocation) (readFile : String → Option ByteArray) :
    Option String :=
  if invocation.fromFile then (readFile invocation.contents).bind String.fromUTF8?
  else some invocation.contents

theorem fromUTF8?_toUTF8 (text : String) : String.fromUTF8? text.toUTF8 = some text :=
  dif_pos text.isValidUTF8

/-- If the contents name a file that holds a text, this is the text to evaluate. -/
theorem Invocation.text?_of_fromFile {invocation : Invocation}
    {readFile : String → Option ByteArray} {text : String} (hfrom : invocation.fromFile = true)
    (hfile : readFile invocation.contents = some text.toUTF8) :
    invocation.text? readFile = some text := by
  rw [text?, if_pos hfrom, hfile, Option.bind_some, fromUTF8?_toUTF8]

/-- Answer an accepted command line that asks for something of an expression. -/
def Invocation.respond (invocation : Invocation) (readFile : String → Option ByteArray) :
    Response :=
  match invocation.text? readFile with
  | some text => showText invocation.listTokens text
  | none =>
      .failure ("Failed to read the input file '" ++ invocation.contents ++
        "'. Perhaps this file does not exist?")

/-- Answer a command line, given a reading of its arguments, with a text for those that are not
accepted, and what reading a file by its name yields. -/
def respondBy (reading : List String → Except String Request)
    (readFile : String → Option ByteArray) (arguments : List String) : Response :=
  match reading arguments with
  | .ok .help => .success helpText
  | .ok .version => .success versionText
  | .ok (.invoke invocation) => invocation.respond readFile
  | .error usage => .misuse usage

/-- What a command line asks for, or the line that says why it is not accepted. -/
def readArguments (arguments : List String) : Except String Request :=
  (Request.ofArguments arguments).mapError fun error => error.message ++ "\n"

/-- Answer a command line, given what reading a file by its name yields. -/
def respond (readFile : String → Option ByteArray) (arguments : List String) : Response :=
  respondBy readArguments readFile arguments

end CommandLine
end Calculator
