import Calculator.Cursor
import Calculator.Event
import Calculator.Numeral

/-!
# Sessions

A session is a cursor together with the log of what has happened on it.  A parser
is a step on a session: it ends with an answer or an interrupt, and in either case
the session shows how far it came.

An interrupt is a failure, which is an answer to the user, or a refused attempt to
take back a move, which is a mistake of whoever drives the cursor.

Main results:

- Theorems `Parser.next_eq_ok_iff` and `Parser.unread_eq_ok_iff` say when the two
  moves succeed, and with which session.
-/

namespace Calculator

/-- A cursor and the events so far. -/
structure Session where
  cursor : Cursor
  log : Array Event

namespace Session

/-- A session on a fresh log. -/
def ofCursor (cursor : Cursor) : Session where
  cursor := cursor
  log := #[]

/-- The number of tokens behind the cursor. -/
def remaining (session : Session) : Nat :=
  session.cursor.remaining

/-- Note that a rule is entered. -/
def enter (rule : Rule) (session : Session) : Session :=
  { session with log := session.log.push (.entered rule session.cursor.position) }

/-- Taking notes uses up no token. -/
@[simp]
theorem remaining_enter (rule : Rule) (session : Session) :
    (session.enter rule).remaining = session.remaining :=
  rfl

end Session

/-- The ways in which a step does not come to an answer. -/
inductive Interrupt where
  | failure (cause : Failure)
  /-- A move was to be taken back, and there was none to take back. -/
  | unreadRefused (position : Nat)
deriving DecidableEq

/-- The wording of an interrupt. -/
def Interrupt.message : Interrupt → String
  | failure cause => cause.message
  | unreadRefused position =>
      "unread at position " ++ toString position ++ " without a preceding next"

/-- A step on a session. -/
abbrev Parser :=
  EStateM Interrupt Session

namespace Parser

/-! ## Ending early -/

/-- Fail for a grammatical cause at the position of the cursor. -/
def reject {α : Type} (cause : Nat → GrammarError) : Parser α := fun session =>
  .error (.failure (.grammatical (cause session.cursor.position))) session

/-- The answer of an arithmetic operation. -/
def calculate (result : Except ArithmeticError Int64) : Parser Int64 := fun session =>
  match result with
  | .ok value => .ok value session
  | .error error => .error (.failure (.arithmetic error)) session

/-- The value of a number's text. -/
def literal (text : String) : Parser Int64 :=
  match Numeral.read text with
  | .ok value => pure value
  | .error .tooLarge => reject (.literalTooLarge text)
  | .error .tooSmall => reject (.malformedLiteral text)
  | .error .malformed => reject (.malformedLiteral text)

/-! ## Moving the cursor -/

/-- Note that a rule is entered. -/
def enter (rule : Rule) : Parser Unit := fun session =>
  .ok () (session.enter rule)

/-- Read the next token. -/
def next : Parser Token := fun session =>
  match session.cursor.next? with
  | some (token, cursor) => .ok token { session with cursor := cursor }
  | none => reject .unexpectedEnd session

/-- Push the token just read back. -/
def unread : Parser Unit := fun session =>
  match session.cursor.unread? with
  | some cursor => .ok () { session with cursor := cursor }
  | none => .error (.unreadRefused session.cursor.position) session

/-- Open a negation. -/
def descend : Parser Unit := fun session =>
  match session.cursor.descend? with
  | some cursor => .ok () { session with cursor := cursor }
  | none => reject .nestingTooDeep session

/-- Close a negation. -/
def ascend : Parser Unit := fun session =>
  .ok () { session with cursor := session.cursor.ascend }

/-- Reading succeeds exactly where the cursor can move. -/
theorem next_eq_ok_iff {session after : Session} {token : Token} :
    next session = .ok token after ↔
      ∃ cursor, session.cursor.next? = some (token, cursor) ∧
        after = { session with cursor := cursor } := by
  rcases hfound : session.cursor.next? with _ | ⟨read, cursor⟩
  · simp [next, reject, hfound]
  · simp only [next, hfound, EStateM.Result.ok.injEq, Option.some.injEq, Prod.mk.injEq]
    constructor
    · rintro ⟨rfl, rfl⟩
      exact ⟨cursor, ⟨rfl, rfl⟩, rfl⟩
    · rintro ⟨_, ⟨rfl, rfl⟩, rfl⟩
      exact ⟨rfl, rfl⟩

/-- Pushing back succeeds exactly where the cursor can take back a move. -/
theorem unread_eq_ok_iff {session after : Session} :
    unread session = .ok () after ↔
      ∃ cursor, session.cursor.unread? = some cursor ∧
        after = { session with cursor := cursor } := by
  cases hfound : session.cursor.unread? <;> simp [unread, hfound, eq_comm]

/-- Opening a negation succeeds exactly where the nesting limit allows it. -/
theorem descend_eq_ok_iff {session after : Session} :
    descend session = .ok () after ↔
      ∃ cursor, session.cursor.descend? = some cursor ∧
        after = { session with cursor := cursor } := by
  cases hfound : session.cursor.descend? <;> simp [descend, reject, hfound, eq_comm]

end Parser

end Calculator
