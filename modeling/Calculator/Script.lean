import Calculator.Grammar

/-!
# Cursor scripts

A script drives one cursor by hand: it reads and pushes back tokens, opens and
closes negations, reads by a rule of the grammar, and can keep a copy of the
cursor and go back to it.  A command that does not come to an answer does not end
the script; the cursor goes on in the state in which the command left it.
-/

namespace Calculator
namespace Script

/-- The things that can be asked of a cursor. -/
inductive Command where
  | next
  | unread
  | descend
  | ascend
  | read (rule : Rule)
  /-- Keep a copy of the cursor. -/
  | save
  /-- Go back to the copy that was kept. -/
  | restore
deriving DecidableEq

/-- The answers to commands. -/
inductive Reply where
  | done
  | token (token : Token)
  | value (value : Int64)
deriving DecidableEq

/-- A session and the copy of its cursor that was kept last. -/
structure Bench where
  session : Session
  saved : Cursor

/-- A bench with a cursor on it, which is also the copy kept at first. -/
def Bench.ofCursor (cursor : Cursor) : Bench where
  session := Session.ofCursor cursor
  saved := cursor

/-- Take a step on the session of a bench. -/
def Bench.step {α : Type} (bench : Bench) (parser : Parser α) (reply : α → Reply) :
    Except Interrupt Reply × Bench :=
  match parser bench.session with
  | .ok answer after => (.ok (reply answer), { bench with session := after })
  | .error cause after => (.error cause, { bench with session := after })

/-- Carry out a command once. -/
def Command.run (command : Command) (bench : Bench) : Except Interrupt Reply × Bench :=
  match command with
  | next => bench.step Parser.next .token
  | unread => bench.step Parser.unread fun _ => .done
  | descend => bench.step Parser.descend fun _ => .done
  | ascend => bench.step Parser.ascend fun _ => .done
  | read rule => bench.step (Parser.ofRule rule) .value
  | save => (.ok .done, { bench with saved := bench.session.cursor })
  | restore => (.ok .done, { bench with session := { bench.session with cursor := bench.saved } })

/-- Carry out a command up to a number of times, as long as it comes to answers.
The latest answer so far is given. -/
def Command.repeatFrom (command : Command) (latest : Reply) :
    Nat → Bench → Except Interrupt Reply × Bench
  | 0, bench => (.ok latest, bench)
  | count + 1, bench =>
      match command.run bench with
      | (.ok reply, after) => command.repeatFrom reply count after
      | (.error cause, after) => (.error cause, after)

/-- A command and the number of times to carry it out. -/
structure Instruction where
  command : Command
  count : Nat

/-- What is seen after an instruction: its latest answer, where the cursor is, and
what happened meanwhile. -/
structure Report where
  reply : Except Interrupt Reply
  position : Nat
  remaining : Nat
  depth : Nat
  events : Array Event

/-- Carry out an instruction on a fresh log. -/
def Instruction.run (instruction : Instruction) (bench : Bench) : Report × Bench :=
  let fresh := { bench with session := Session.ofCursor bench.session.cursor }
  let (reply, after) := instruction.command.repeatFrom .done instruction.count fresh
  let cursor := after.session.cursor
  (⟨reply, cursor.position, cursor.remaining, cursor.depth, after.session.log⟩, after)

/-- Carry out the instructions of a script in order. -/
def run : List Instruction → Bench → List Report
  | [], _ => []
  | instruction :: rest, bench =>
      let (report, after) := instruction.run bench
      report :: run rest after

end Script
end Calculator
