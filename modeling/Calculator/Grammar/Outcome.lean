import Calculator.Grammar.Level
import Calculator.Session

/-!
# The descent with its bounds

A rule of the grammar that succeeds has moved the cursor forward.  This is why the
descent ends, so each rule is defined together with that fact: its outcome is the
result of a step with evidence that an answer left fewer tokens than a bound.

The steps of which the rules are made come first, each with the bound that it
obeys, and then the rules, which call each other with fewer tokens left or on an
inner level with as many.
-/

namespace Calculator

/-- A step that ends with an answer leaves fewer tokens than a bound. -/
def EndsBelow {α : Type} (bound : Nat) (result : EStateM.Result Interrupt Session α) : Prop :=
  ∀ answer after, result = .ok answer after → after.remaining < bound

/-- How a step ended, with evidence that an answer left fewer tokens than a
bound. -/
abbrev Outcome (α : Type) (bound : Nat) :=
  { result : EStateM.Result Interrupt Session α // EndsBelow bound result }

namespace Outcome

variable {α β : Type} {bound wider : Nat}

/-- An answer. -/
def answer (value : α) (session : Session) : Outcome α (session.remaining + 1) :=
  ⟨.ok value session, by rintro _ _ ⟨⟩; exact Nat.lt_succ_self _⟩

/-- An interrupt obeys every bound. -/
def interrupt (cause : Interrupt) (session : Session) : Outcome α bound :=
  ⟨.error cause session, by rintro _ _ ⟨⟩⟩

/-- A bound may be widened. -/
@[inline]
def widen (outcome : Outcome α bound) (hle : bound ≤ wider) : Outcome α wider :=
  ⟨outcome.val, fun answer after hended =>
    Nat.lt_of_lt_of_le (outcome.property answer after hended) hle⟩

/-- Go on from an answer, which left fewer tokens than the bound. -/
@[inline]
def andThen (outcome : Outcome α bound)
    (rest : (answer : α) → (after : Session) → after.remaining < bound → Outcome β wider) :
    Outcome β wider :=
  match outcome with
  | ⟨.ok answer after, hbelow⟩ => rest answer after (hbelow answer after rfl)
  | ⟨.error cause after, _⟩ => interrupt cause after

/-- Failing for a grammatical cause obeys every bound. -/
def reject (cause : Nat → GrammarError) (session : Session) : Outcome α bound :=
  ⟨Parser.reject cause session, by rintro _ _ ⟨⟩⟩

/-- Reading uses up a token. -/
def next (session : Session) : Outcome Token session.remaining :=
  ⟨Parser.next session, by
    intro token after hread
    obtain ⟨cursor, hmoved, rfl⟩ := Parser.next_eq_ok_iff.mp hread
    have := Cursor.remaining_next hmoved
    simp only [Session.remaining] at *
    omega⟩

/-- Pushing back frees at most one token. -/
def unread (session : Session) : Outcome Unit (session.remaining + 2) :=
  ⟨Parser.unread session, by
    intro _ after hpushed
    obtain ⟨cursor, htaken, rfl⟩ := Parser.unread_eq_ok_iff.mp hpushed
    have := Cursor.remaining_unread_le htaken
    simp only [Session.remaining] at *
    omega⟩

/-- Opening a negation frees no token. -/
def descend (session : Session) : Outcome Unit (session.remaining + 1) :=
  ⟨Parser.descend session, by
    intro _ after hentered
    obtain ⟨cursor, hopened, rfl⟩ := Parser.descend_eq_ok_iff.mp hentered
    have := Cursor.remaining_descend hopened
    simp only [Session.remaining] at *
    omega⟩

/-- Closing a negation frees no token. -/
def ascend (session : Session) : Outcome Unit (session.remaining + 1) :=
  ⟨Parser.ascend session, by rintro _ _ ⟨⟩; exact Nat.lt_succ_self _⟩

/-- Giving a number its value frees no token. -/
def literal (text : String) (session : Session) : Outcome Int64 (session.remaining + 1) :=
  ⟨Parser.literal text session, by
    intro _ after hread
    unfold Parser.literal at hread
    generalize Numeral.read text = reading at hread
    rcases reading with (_ | _ | _) | value <;> cases hread
    exact Nat.lt_succ_self _⟩

/-- Calculating frees no token. -/
def calculate (result : Except ArithmeticError Int64) (session : Session) :
    Outcome Int64 (session.remaining + 1) :=
  ⟨Parser.calculate result session, by
    intro _ after hdone
    unfold Parser.calculate at hdone
    split at hdone <;> cases hdone
    exact Nat.lt_succ_self _⟩

/-! ## The descent -/

mutual

/-- Read a chain of a level: its first operand and all that follows it. -/
def chain (level : Level) (session : Session) : Outcome Int64 session.remaining :=
  (operand level (session.enter level.rule)).andThen fun value after hlt =>
    (chainFrom level value after).widen (Nat.succ_le_of_lt hlt)
termination_by (session.remaining, 2 * level.rank)
decreasing_by
  · exact Prod.Lex.right _ (by cases level <;> decide)
  · exact Prod.Lex.left _ _ hlt

/-- Read an operand of a level. -/
def operand (level : Level) (session : Session) : Outcome Int64 session.remaining :=
  match level with
  | .sum => chain .product session
  | .product => unary session
termination_by (session.remaining, 2 * level.rank - 1)
decreasing_by
  · exact Prod.Lex.right _ (by decide)
  · exact Prod.Lex.right _ (by decide)

/-- Read what follows an operand of a chain, whose value so far is given. -/
def chainFrom (level : Level) (value : Int64) (session : Session) :
    Outcome Int64 (session.remaining + 1) :=
  (next session).andThen fun token s hlt =>
    match level.follow token.kind with
    | .operator op =>
        (operand level s).andThen fun rhs s' hlt' =>
          (calculate (op.apply value rhs) s').andThen fun result s'' hlt'' =>
            (chainFrom level result s'').widen (by omega)
    | .stop =>
        (unread s).andThen fun _ s' hlt' =>
          (answer value s').widen (by omega)
    | .refuse => reject (.unexpectedToken token.text) s
termination_by (session.remaining, 0)
decreasing_by
  · exact Prod.Lex.left _ _ hlt
  · exact Prod.Lex.left _ _ (by omega)

/-- Read an operand of a product. -/
def unary (session : Session) : Outcome Int64 session.remaining :=
  (next (session.enter .unary)).andThen fun token s hlt =>
    match token.kind with
    | .minus =>
        (descend s).andThen fun _ s' hlt' =>
          (chain .product s').andThen fun value s'' hlt'' =>
            (ascend s'').andThen fun _ s''' hlt''' =>
              (calculate (negate value) s''').widen (by rw [Session.remaining_enter] at hlt; omega)
    | .number => (literal token.text s).widen (Nat.succ_le_of_lt hlt)
    | _ => reject (.unexpectedToken token.text) s
termination_by (session.remaining, 0)
decreasing_by
  exact Prod.Lex.left _ _ (by rw [Session.remaining_enter] at hlt; omega)

end

end Outcome

end Calculator
