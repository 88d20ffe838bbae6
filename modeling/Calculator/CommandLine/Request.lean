/-!
# Requests on the command line

The arguments of a command line are read from the left, and the first of them that
settles the matter ends the reading: an argument that cannot be used, or an option
that asks for information.  An argument that starts with a dash is made of options,
unless it is a lone dash or stands after a double dash.  Every other argument is
the contents, of which there is exactly one.
-/

namespace Calculator
namespace CommandLine

/-- The options of the command line. -/
inductive Switch where
  | file
  | tokens
  | help
  | version
deriving DecidableEq

/-- The option that a word after two dashes stands for. -/
def Switch.ofWord? : List Char → Option Switch
  | ['f', 'i', 'l', 'e'] => some file
  | ['t', 'o', 'k', 'e', 'n', 's'] => some tokens
  | ['h', 'e', 'l', 'p'] => some help
  | ['v', 'e', 'r', 's', 'i', 'o', 'n'] => some version
  | _ => none

/-- The option that a letter after one dash stands for. -/
def Switch.ofLetter? : Char → Option Switch
  | 'f' => some file
  | 't' => some tokens
  | 'h' => some help
  | 'V' => some version
  | _ => none

/-- The longer spelling of an option. -/
def Switch.spelling : Switch → String
  | file => "--file"
  | tokens => "--tokens"
  | help => "--help"
  | version => "--version"

/-- What an accepted command line asks to do with its contents. -/
structure Invocation where
  /-- The contents name a file that holds the expression. -/
  fromFile : Bool
  /-- The tokens are asked for, not the value. -/
  listTokens : Bool
  contents : String
deriving DecidableEq

/-- What an accepted command line asks for. -/
inductive Request where
  | help
  | version
  | invoke (invocation : Invocation)
deriving DecidableEq

/-- The reasons for which a command line is not accepted. -/
inductive UsageError where
  | unknownOption (argument : String)
  | repeatedOption (option : Switch)
  | surplusArgument (argument : String)
  | missingContents
deriving DecidableEq

/-- A wording of a usage error.  Any other would do, as `respondBy` leaves it open. -/
def UsageError.message : UsageError → String
  | unknownOption argument => "error: unexpected argument '" ++ argument ++ "' found"
  | repeatedOption option =>
      "error: the argument '" ++ option.spelling ++ "' cannot be used multiple times"
  | surplusArgument argument => "error: unexpected argument '" ++ argument ++ "' found"
  | missingContents => "error: the following required arguments were not provided: <CONTENTS>"

/-- What the arguments so far have settled. -/
structure Draft where
  fromFile : Bool
  listTokens : Bool
  contents : Option String

/-- The reading of an argument either goes on from a draft or has an outcome. -/
inductive Progress where
  | continue (draft : Draft)
  | finished (outcome : Except UsageError Request)

namespace Draft

/-- Nothing is settled at first. -/
def blank : Draft where
  fromFile := false
  listTokens := false
  contents := none

/-- Take note of an option. -/
def flip (draft : Draft) : Switch → Progress
  | .file =>
      if draft.fromFile then .finished (.error (.repeatedOption .file))
      else .continue { draft with fromFile := true }
  | .tokens =>
      if draft.listTokens then .finished (.error (.repeatedOption .tokens))
      else .continue { draft with listTokens := true }
  | .help => .finished (.ok .help)
  | .version => .finished (.ok .version)

/-- Take note of the options that the letters after one dash stand for. -/
def flipAll (argument : String) (draft : Draft) : List Char → Progress
  | [] => .continue draft
  | letter :: rest =>
      match Switch.ofLetter? letter with
      | none => .finished (.error (.unknownOption argument))
      | some option =>
          match draft.flip option with
          | .continue draft => draft.flipAll argument rest
          | .finished outcome => .finished outcome

/-- Take note of the contents. -/
def place (draft : Draft) (argument : String) : Progress :=
  match draft.contents with
  | none => .continue { draft with contents := some argument }
  | some _ => .finished (.error (.surplusArgument argument))

/-- Take note of an argument that is not a double dash. -/
def note (draft : Draft) (argument : String) : Progress :=
  match argument.toList with
  | '-' :: '-' :: word =>
      match Switch.ofWord? word with
      | some option => draft.flip option
      | none => .finished (.error (.unknownOption argument))
  | '-' :: letter :: rest => draft.flipAll argument (letter :: rest)
  | _ => draft.place argument

/-- What is asked for when there are no more arguments. -/
def finish (draft : Draft) : Except UsageError Request :=
  match draft.contents with
  | none => .error .missingContents
  | some contents => .ok (.invoke ⟨draft.fromFile, draft.listTokens, contents⟩)

/-- Read the arguments after a double dash. -/
def readContents (draft : Draft) : List String → Except UsageError Request
  | [] => draft.finish
  | argument :: rest =>
      match draft.place argument with
      | .continue draft => draft.readContents rest
      | .finished outcome => outcome

/-- Read the arguments from the left. -/
def read (draft : Draft) : List String → Except UsageError Request
  | [] => draft.finish
  | argument :: rest =>
      if argument = "--" then draft.readContents rest
      else
        match draft.note argument with
        | .continue draft => draft.read rest
        | .finished outcome => outcome

end Draft

/-- What a command line asks for. -/
def Request.ofArguments (arguments : List String) : Except UsageError Request :=
  Draft.blank.read arguments

end CommandLine
end Calculator
