import Calculator.Grammar

/-!
# Reasoning along the descent

The rules call each other, but always with fewer tokens left, or on an inner level
with as many.  Reasoning along the descent therefore takes two things: what a
sequence of steps ensures, from what each step ensures, and an induction on the
tokens left.

Main results:

- Theorem `Parser.Ensures.bind`: what two steps ensure in a row.
- Theorem `Phrase.induction`: what holds of a phrase wherever it holds of all that
  the phrase can call holds of every phrase.
- Theorem `Parser.ofRule_ne_unreadRefused`: no rule ever pushes back a token
  that it cannot push back, whatever the cursor it starts on.
-/

namespace Calculator

namespace Parser

/-- Whatever way a step ends, what it ends with is as asked for. -/
def Ensures {α : Type} (parser : Parser α) (session : Session)
    (answered : α → Session → Prop) (interrupted : Interrupt → Session → Prop) : Prop :=
  match parser session with
  | .ok answer after => answered answer after
  | .error cause after => interrupted cause after

namespace Ensures

variable {α β : Type} {session : Session} {interrupted : Interrupt → Session → Prop}

/-- What a first step ensures, and what the second ensures from there, both steps
ensure in a row. -/
theorem bind {parser : Parser α} {continuation : α → Parser β}
    {middle : α → Session → Prop} {answered : β → Session → Prop}
    (hfirst : parser.Ensures session middle interrupted)
    (hsecond : ∀ answer after, parser session = .ok answer after → middle answer after →
      (continuation answer).Ensures after answered interrupted) :
    (parser >>= continuation).Ensures session answered interrupted := by
  unfold Ensures at hfirst ⊢
  show match EStateM.bind parser continuation session with
    | .ok answer after => answered answer after
    | .error cause after => interrupted cause after
  unfold EStateM.bind
  cases hended : parser session with
  | ok answer after =>
      rw [hended] at hfirst
      exact hsecond answer after hended hfirst
  | error cause after =>
      rw [hended] at hfirst
      exact hfirst

end Ensures

end Parser

/-! ## Phrases -/

/-- What the descent can be asked to read. -/
inductive Phrase where
  /-- A chain of a level. -/
  | chain (level : Level)
  /-- What follows an operand of a chain, whose value so far is given. -/
  | rest (level : Level) (value : Int64)
  /-- An operand of a product. -/
  | unary

namespace Phrase

/-- The rule that reads a phrase. -/
def parser : Phrase → Parser Int64
  | chain level => Parser.chain level
  | rest level value => Parser.chainFrom level value
  | unary => Parser.unary

/-- The operand of a level, as a phrase. -/
def operand : Level → Phrase
  | .sum => chain .product
  | .product => unary

/-- The rule for the operand of a level. -/
@[simp]
theorem parser_operand (level : Level) : (operand level).parser = Parser.operand level := by
  cases level <;> rfl

/-- How many phrases can start in a row without reading a token. -/
def rank : Phrase → Nat
  | chain level => level.rank
  | rest _ _ => 0
  | unary => 0

/-- The operand of a level starts further inward than the level. -/
theorem rank_operand_lt (level : Level) : (operand level).rank < (chain level).rank := by
  cases level <;> decide

/-- Reading a phrase on a session comes before reading another on another. -/
def Before (phrase' : Phrase) (session' : Session) (phrase : Phrase) (session : Session) : Prop :=
  session'.remaining < session.remaining ∨
    session'.remaining = session.remaining ∧ phrase'.rank < phrase.rank

/-- What holds of a phrase on a session, wherever it holds of all phrases that come
before it, holds of every phrase on every session. -/
theorem induction {motive : Phrase → Session → Prop}
    (step : ∀ phrase session,
      (∀ phrase' session', Before phrase' session' phrase session → motive phrase' session') →
        motive phrase session)
    (phrase : Phrase) (session : Session) : motive phrase session :=
  step phrase session fun phrase' session' _ => induction step phrase' session'
termination_by (session.remaining, phrase.rank)
decreasing_by
  rename_i hbefore
  rcases hbefore with hfewer | ⟨hsame, hinward⟩
  · exact Prod.Lex.left _ _ hfewer
  · rw [hsame]
    exact Prod.Lex.right _ hinward

end Phrase

namespace Parser

/-- An operand that is read uses up at least one token. -/
theorem remaining_operand_lt {level : Level} {session after : Session} {value : Int64}
    (hread : operand level session = .ok value after) : after.remaining < session.remaining := by
  rw [← operand_val] at hread
  exact (Outcome.operand level session).property value after hread

/-- A token that is read is used up. -/
theorem remaining_next {session after : Session} {token : Token}
    (hread : next session = .ok token after) : after.remaining < session.remaining :=
  (Outcome.next session).property token after hread

/-- Opening a negation uses up no token. -/
theorem remaining_descend_le {session after : Session}
    (hopened : descend session = .ok () after) : after.remaining ≤ session.remaining :=
  Nat.le_of_lt_succ ((Outcome.descend session).property () after hopened)

/-- Calculating uses up no token. -/
theorem remaining_calculate_le {result : Except ArithmeticError Int64} {session after : Session}
    {value : Int64} (hdone : calculate result session = .ok value after) :
    after.remaining ≤ session.remaining :=
  Nat.le_of_lt_succ ((Outcome.calculate result session).property value after hdone)

/-! ## Pushing back is never refused -/

/-- A step on a session ends with an answer or a failure. -/
def NeverRefused {α : Type} (parser : Parser α) (session : Session) : Prop :=
  parser.Ensures session (fun _ _ => True) fun cause _ => ∃ failure, cause = .failure failure

namespace NeverRefused

variable {α β : Type} {session : Session}

/-- Steps in a row are not refused if none of them is. -/
theorem bind {parser : Parser α} {continuation : α → Parser β}
    (hfirst : parser.NeverRefused session)
    (hsecond : ∀ answer after, parser session = .ok answer after →
      (continuation answer).NeverRefused after) :
    (parser >>= continuation).NeverRefused session :=
  Ensures.bind hfirst fun answer after hended _ => hsecond answer after hended

/-- Failing is not being refused. -/
theorem reject (cause : Nat → GrammarError) :
    (Parser.reject cause : Parser α).NeverRefused session :=
  ⟨_, rfl⟩

/-- Answering is not being refused. -/
theorem pure (value : α) : (Pure.pure value : Parser α).NeverRefused session :=
  trivial

/-- Taking notes is not refused. -/
theorem enter (rule : Rule) : (Parser.enter rule).NeverRefused session :=
  trivial

/-- Closing a negation is not refused. -/
theorem ascend : Parser.ascend.NeverRefused session :=
  trivial

/-- Reading is not refused. -/
theorem next : Parser.next.NeverRefused session := by
  unfold NeverRefused Ensures Parser.next
  split
  next => trivial
  next hended =>
    split at hended
    next => cases hended
    next => cases hended; exact ⟨_, rfl⟩

/-- Opening a negation is not refused. -/
theorem descend : Parser.descend.NeverRefused session := by
  unfold NeverRefused Ensures Parser.descend
  split
  next => trivial
  next hended =>
    split at hended
    next => cases hended
    next => cases hended; exact ⟨_, rfl⟩

/-- Calculating is not refused. -/
theorem calculate (result : Except ArithmeticError Int64) :
    (Parser.calculate result).NeverRefused session := by
  unfold NeverRefused Ensures Parser.calculate
  cases result with
  | ok value => trivial
  | error error => exact ⟨_, rfl⟩

/-- Giving a number its value is not refused. -/
theorem literal (text : String) : (Parser.literal text).NeverRefused session := by
  unfold Parser.literal
  split
  · exact pure _
  all_goals exact reject _

/-- Pushing back a token that was just read is not refused. -/
theorem unread {before : Session} {token : Token}
    (hread : Parser.next before = .ok token session) : Parser.unread.NeverRefused session := by
  obtain ⟨cursor, hmoved, rfl⟩ := next_eq_ok_iff.mp hread
  have htaken := Cursor.unread_next hmoved
  simp [NeverRefused, Ensures, Parser.unread, htaken]

end NeverRefused
end Parser

/-- Reading a phrase is never refused a token to push back. -/
theorem Phrase.neverRefused (phrase : Phrase) (session : Session) :
    phrase.parser.NeverRefused session := by
  induction phrase, session using Phrase.induction with
  | step phrase session ih =>
    cases phrase with
    | chain level =>
        show (Parser.chain level).NeverRefused session
        rw [Parser.chain_eq]
        refine .bind (.enter _) fun _ entered hnoted => ?_
        cases hnoted
        refine .bind ?_ fun value after hread => ?_
        · rw [← parser_operand]
          exact ih _ _ (.inr ⟨rfl, rank_operand_lt level⟩)
        · have hfewer := Parser.remaining_operand_lt hread
          exact ih (.rest level value) after (.inl hfewer)
    | rest level value =>
        show (Parser.chainFrom level value).NeverRefused session
        rw [Parser.chainFrom_eq]
        refine .bind .next fun token after hread => ?_
        have hfewer := Parser.remaining_next hread
        split
        next op _ =>
          refine .bind ?_ fun rhs after' hread' => ?_
          · rw [← parser_operand]
            exact ih _ _ (.inl hfewer)
          · have hfewer' := Parser.remaining_operand_lt hread'
            refine .bind (.calculate _) fun result after'' hdone => ?_
            have hfewer'' := Parser.remaining_calculate_le hdone
            exact ih (.rest level result) after'' (.inl (by omega))
        next => exact .bind (.unread hread) fun _ _ _ => .pure _
        next => exact .reject _
    | unary =>
        show Parser.unary.NeverRefused session
        rw [Parser.unary_eq]
        refine .bind (.enter _) fun _ entered hnoted => ?_
        cases hnoted
        refine .bind .next fun token after hread => ?_
        have hfewer := Parser.remaining_next hread
        split
        next =>
          refine .bind .descend fun _ after' hopened => ?_
          have hfewer' := Parser.remaining_descend_le hopened
          refine .bind ?_ fun value _ _ => ?_
          · exact ih (.chain .product) after' (.inl (by simp at hfewer; omega))
          · exact .bind .ascend fun _ _ _ => .calculate _
        next => exact .literal _
        next => exact .reject _

namespace Parser

/-- Reading a whole expression is never refused a token to push back. -/
theorem expression_neverRefused (session : Session) : expression.NeverRefused session := by
  unfold expression
  refine .bind (.enter _) fun _ _ _ => .bind .next fun token after hread => ?_
  split
  next => exact .pure _
  next => exact .bind (.unread hread) fun _ after' _ => Phrase.neverRefused (.chain .sum) after'

/-- Whatever the rule and the session, no token is pushed back that cannot be. -/
theorem ofRule_neverRefused (rule : Rule) (session : Session) :
    (ofRule rule).NeverRefused session := by
  cases rule with
  | expression => exact expression_neverRefused session
  | sum => exact Phrase.neverRefused (.chain .sum) session
  | product => exact Phrase.neverRefused (.chain .product) session
  | unary => exact Phrase.neverRefused .unary session

/-- No rule ends by being refused a token to push back. -/
theorem ofRule_ne_unreadRefused {rule : Rule} {session after : Session} {position : Nat} :
    ofRule rule session ≠ .error (.unreadRefused position) after := by
  intro hended
  have hsafe := ofRule_neverRefused rule session
  unfold NeverRefused Ensures at hsafe
  rw [hended] at hsafe
  obtain ⟨_, ⟨⟩⟩ := hsafe

end Parser

end Calculator
