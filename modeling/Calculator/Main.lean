import Calculator.CommandLine.Response

/-!
# The program

The program reads the file that its command line names, if it names one, and
writes out the response.
-/

namespace Calculator
namespace CommandLine

/-- The bytes of a file, if it can be read. -/
def readFile? (name : String) : IO (Option ByteArray) := do
  try
    return some (← IO.FS.readBinFile name)
  catch _ =>
    return none

/-- The file that a command line needs, if it needs one. -/
def neededFile? (arguments : List String) : Option String :=
  match Request.ofArguments arguments with
  | .ok (.invoke invocation) => if invocation.fromFile then some invocation.contents else none
  | _ => none

end CommandLine
end Calculator

/-- Run the program on the arguments of its command line. -/
def main (arguments : List String) : IO UInt32 := do
  let bytes ←
    match Calculator.CommandLine.neededFile? arguments with
    | some name => Calculator.CommandLine.readFile? name
    | none => pure none
  let response := Calculator.CommandLine.respond (fun _ => bytes) arguments
  IO.print response.stdout
  IO.eprint response.stderr
  return response.status.toUInt32
