import Calculator.Proofs.Extent

/-!
# The rules entered on the way

The rules call each other to any depth, and go back over tokens that they pushed back.  The log
shows nothing of that: each token that is taken in adds to it what its kind alone says, a sign
the product and the operand behind it, and any other operator the operand.  A phrase that fails
has logged as much for the tokens that it took in, and nothing for the token that it refused.

Main results:

- Theorem `Phrase.Reads.exists_logs`: a reading logs what the tokens say that it takes in.
- Theorem `Phrase.Fails.exists_logs`: so does a failed reading, up to the token that it
  refuses.
-/

namespace Calculator

/-! ## Entries -/

/-- The rules entered behind a token that was read, each with the place behind the token. -/
def Token.Kind.entries (place : Nat) : Kind → List (Rule × Nat)
  | plus => [(.product, place), (.unary, place)]
  | minus => [(.product, place), (.unary, place)]
  | star => [(.unary, place)]
  | slash => [(.unary, place)]
  | number => []
  | endOfInput => []

/-- The rules entered behind each of the tokens, of which the first has the given index. -/
def operatorEntries (index : Nat) : List Token → List (Rule × Nat)
  | [] => []
  | token :: others => token.kind.entries (index + 1) ++ operatorEntries (index + 1) others

/-- The rules entered before a phrase reads its first token. -/
def Phrase.entries (place : Nat) : Phrase → List (Rule × Nat)
  | chain .sum => [(.sum, place), (.product, place), (.unary, place)]
  | chain .product => [(.product, place), (.unary, place)]
  | rest _ _ => []
  | unary => [(.unary, place)]

/-- The event of entering a rule at a place. -/
def Event.ofEntry (entry : Rule × Nat) : Event :=
  entered entry.1 entry.2

section Entries

variable {level : Level} {kind : Token.Kind} {op : Operator} {first second : List Token}

/-- The tokens behind others are counted on from those. -/
theorem operatorEntries_append (index : Nat) :
    operatorEntries index (first ++ second) =
      operatorEntries index first ++ operatorEntries (index + first.length) second := by
  induction first generalizing index with
  | nil => rfl
  | cons token first ih =>
      rw [List.cons_append, operatorEntries, operatorEntries, ih, List.append_assoc,
        List.length_cons, Nat.add_assoc index, Nat.add_comm 1]

/-- A chain enters its own rule and what its first operand enters. -/
theorem Phrase.entries_chain (level : Level) (place : Nat) :
    (chain level).entries place = (level.rule, place) :: (operand level).entries place := by
  cases level <;> rfl

/-- Behind an operator, the operand of its level is entered. -/
theorem Level.entries_operator (hfollow : level.follow kind = .operator op) (place : Nat) :
    kind.entries place = (Phrase.operand level).entries place := by
  cases level <;> cases kind <;> cases hfollow <;> rfl

/-- The closing marker is no operator. -/
theorem Level.ne_endOfInput (hfollow : level.follow kind = .operator op) : kind ≠ .endOfInput := by
  rintro rfl
  cases level <;> cases hfollow

theorem Unclosed.append (hfirst : Unclosed first) (hsecond : Unclosed second) :
    Unclosed (first ++ second) :=
  List.forall_mem_append.mpr ⟨hfirst, hsecond⟩

theorem Unclosed.cons {token : Token} (hfirst : Unclosed first)
    (hkind : token.kind ≠ .endOfInput) : Unclosed (token :: first) :=
  List.forall_mem_cons.mpr ⟨hkind, hfirst⟩

end Entries

/-! ## What is logged -/

/-- From one session to another, the cursor has passed over tokens, of which the last may be
refused.  Logged are the given rules and those behind the tokens that were not refused. -/
structure Session.Logs (session : Session) (entries : List (Rule × Nat))
    (followed refused : List Token) (after : Session) : Prop where
  takes : session.Takes (followed ++ refused) after
  log_eq : after.log.toList =
    session.log.toList ++
      (entries ++ operatorEntries session.cursor.position followed).map Event.ofEntry

namespace Session

variable {session middle after : Session} {token : Token}
  {taken followed refused others : List Token} {entries : List (Rule × Nat)} {level : Level}

theorem logs_nil (session : Session) : session.Logs [] [] [] session :=
  ⟨session.takes_nil, by simp [operatorEntries]⟩

theorem logs_peek (session : Session) : session.Logs [] [] [] session.peek :=
  ⟨session.takes_peek, by simp [operatorEntries, peek]⟩

/-- A token that is refused is passed over without an entry. -/
theorem logs_refused (hnext : session.upcoming = token :: others) :
    session.Logs [] [] [token] session.advance :=
  ⟨takes_advance hnext, by simp [operatorEntries, advance]⟩

/-- A number is passed over without an entry. -/
theorem logs_number (hnext : session.upcoming = token :: others)
    (hkind : token.kind = .number) : session.Logs [] [token] [] session.advance :=
  ⟨takes_advance hnext, by simp [operatorEntries, Token.Kind.entries, hkind, advance]⟩

/-- Opening and closing a negation are not logged. -/
theorem Logs.of_deepen (hlogs : session.deepen.Logs entries followed refused after) :
    session.Logs entries followed refused after :=
  ⟨hlogs.takes.of_deepen, hlogs.log_eq⟩

/-- Closing a negation is not logged. -/
theorem Logs.release (hlogs : session.Logs entries followed refused after) :
    session.Logs entries followed refused after.release :=
  ⟨hlogs.takes.release, hlogs.log_eq⟩

/-- Entering a rule is logged in front of everything. -/
theorem Logs.of_enter {rule : Rule}
    (hlogs : (session.enter rule).Logs entries followed refused after) :
    session.Logs ((rule, session.cursor.position) :: entries) followed refused after where
  takes := hlogs.takes.of_enter
  log_eq := by
    rw [hlogs.log_eq, enter, Array.toList_push, List.append_assoc]
    rfl

/-- A token that was followed is logged by what its kind has entered. -/
theorem Logs.cons (hnext : session.upcoming = token :: others)
    (hlogs : session.advance.Logs (token.kind.entries (session.cursor.position + 1)) followed
      refused after) :
    session.Logs [] (token :: followed) refused after where
  takes := hlogs.takes.cons hnext
  log_eq := hlogs.log_eq

/-- What is logged up to a session is followed by what is logged from there. -/
theorem Logs.append (hfirst : session.Logs entries taken [] middle)
    (hsecond : middle.Logs [] followed refused after) :
    session.Logs entries (taken ++ followed) refused after where
  takes := by
    have htakes := hfirst.takes.trans hsecond.takes
    rwa [List.append_nil, ← List.append_assoc] at htakes
  log_eq := by
    have hposition := hfirst.takes.position_eq
    rw [List.append_nil] at hposition
    rw [hsecond.log_eq, hfirst.log_eq, hposition, operatorEntries_append, List.nil_append,
      List.append_assoc, ← List.map_append, List.append_assoc]

end Session

/-- What is logged while a phrase is read. -/
def Phrase.Logs (phrase : Phrase) (session : Session) (followed refused : List Token)
    (after : Session) : Prop :=
  session.Logs (phrase.entries session.cursor.position) followed refused after

/-- The position that a grammatical error names. -/
def GrammarError.position : GrammarError → Nat
  | unexpectedToken _ position => position
  | unexpectedEnd position => position
  | literalTooLarge _ position => position
  | nestingTooDeep position => position
  | malformedLiteral _ position => position

/-- The tokens that are refused by a failure at the cursor of the session: none for want of
tokens or of a result, and otherwise the token in front of the cursor. -/
inductive Failure.Refuses (after : Session) : Failure → List Token → Prop where
  | ending (hend : after.upcoming = []) :
      Refuses after (.grammatical (.unexpectedEnd after.cursor.position)) []
  | token {error : GrammarError} (token : Token)
      (hposition : error.position = after.cursor.position) :
      Refuses after (.grammatical error) [token]
  | arithmetic (error : ArithmeticError) : Refuses after (.arithmetic error) []

namespace Phrase

variable {phrase : Phrase} {session middle after : Session} {level : Level} {op : Operator}
  {value : Int64} {token : Token} {taken followed refused others : List Token}

/-- What is logged of a phrase is followed by what is logged behind it. -/
theorem Logs.append (hfirst : phrase.Logs session taken [] middle)
    (hrest : (rest level value).Logs middle followed refused after) :
    phrase.Logs session (taken ++ followed) refused after :=
  Session.Logs.append hfirst hrest

/-- The token in the place of an operand is refused. -/
theorem logs_unary_refused (hnext : session.upcoming = token :: others) :
    unary.Logs session [] [token] (session.enter .unary).advance :=
  (@Session.logs_refused (session.enter .unary) token others hnext).of_enter

theorem Logs.release (hlogs : phrase.Logs session followed refused after) :
    phrase.Logs session followed refused after.release :=
  Session.Logs.release hlogs

/-- A chain logs its own rule in front of those of its operand. -/
theorem Logs.chain
    (hlogs : (operand level).Logs (session.enter level.rule) followed refused after) :
    (chain level).Logs session followed refused after := by
  unfold Logs
  rw [entries_chain]
  exact Session.Logs.of_enter hlogs

/-- An operator is followed by the rules of its operand. -/
theorem Logs.operator (hnext : session.upcoming = token :: others)
    (hfollow : level.follow token.kind = .operator op)
    (hlogs : (operand level).Logs session.advance followed refused after) :
    (rest level value).Logs session (token :: followed) refused after := by
  refine Session.Logs.cons hnext ?_
  rw [Level.entries_operator hfollow]
  exact hlogs

/-- A negation logs its own rule in front of those of the product that it negates. -/
theorem Logs.negation (hnext : session.upcoming = token :: others)
    (hkind : token.kind = .minus)
    (hlogs : (Phrase.chain .product).Logs (session.enter .unary).advance.deepen followed refused
      after) :
    unary.Logs session (token :: followed) refused after := by
  have hentered : (session.enter .unary).upcoming = token :: others := hnext
  refine Session.Logs.of_enter (Session.Logs.cons hentered ?_)
  rw [hkind]
  exact Session.Logs.of_deepen hlogs

/-- A reading logs what the tokens say that it takes in.  None of them is a closing marker. -/
theorem Reads.exists_logs (hreads : Reads phrase session value after) :
    ∃ taken, phrase.Logs session taken [] after ∧ Unclosed taken := by
  induction hreads with
  | chain _ _ ihOperand ihRest =>
      rcases ihOperand with ⟨taken, htaken, hunclosed⟩
      rcases ihRest with ⟨later, hlater, hunclosed'⟩
      exact ⟨_, htaken.chain.append hlater, hunclosed.append hunclosed'⟩
  | more hnext hfollow _ _ _ ihOperand ihRest =>
      rcases ihOperand with ⟨taken, htaken, hunclosed⟩
      rcases ihRest with ⟨later, hlater, hunclosed'⟩
      exact ⟨_, (htaken.operator hnext hfollow).append hlater,
        (hunclosed.cons (Level.ne_endOfInput hfollow)).append hunclosed'⟩
  | @stop _ session => exact ⟨[], session.logs_peek, unclosed_nil⟩
  | @number session token others _ hnext hkind _ =>
      have hentered : (session.enter .unary).upcoming = token :: others := hnext
      exact ⟨[token], (Session.logs_number hentered hkind).of_enter,
        unclosed_nil.cons (by simp [hkind])⟩
  | negation hnext hkind _ _ _ ih =>
      rcases ih with ⟨taken, htaken, hunclosed⟩
      exact ⟨_, (htaken.negation hnext hkind).release, hunclosed.cons (by simp [hkind])⟩

/-- A failed reading logs what the tokens say that it followed.  None of them is a closing
marker. -/
theorem Fails.exists_logs {cause : Failure} (hfails : Fails phrase session cause after) :
    ∃ followed refused, phrase.Logs session followed refused after ∧ Unclosed followed ∧
      cause.Refuses after refused := by
  induction hfails with
  | chainOperand _ ih =>
      rcases ih with ⟨followed, refused, hlogs, hend⟩
      exact ⟨followed, refused, hlogs.chain, hend⟩
  | chainRest hoperand _ ih =>
      rcases hoperand.exists_logs with ⟨taken, htaken, hunclosed⟩
      rcases ih with ⟨followed, refused, hlogs, hunclosed', hrefuses⟩
      exact ⟨_, refused, htaken.chain.append hlogs, hunclosed.append hunclosed', hrefuses⟩
  | @restEnd _ session _ hend =>
      exact ⟨[], [], session.logs_nil, unclosed_nil, .ending hend⟩
  | restOperand hnext hfollow _ ih =>
      rcases ih with ⟨followed, refused, hlogs, hunclosed, hrefuses⟩
      exact ⟨_, refused, hlogs.operator hnext hfollow,
        hunclosed.cons (Level.ne_endOfInput hfollow), hrefuses⟩
  | restApply hnext hfollow hoperand _ =>
      rcases hoperand.exists_logs with ⟨taken, htaken, hunclosed⟩
      exact ⟨_, [], htaken.operator hnext hfollow,
        hunclosed.cons (Level.ne_endOfInput hfollow), .arithmetic _⟩
  | restMore hnext hfollow hoperand _ _ ih =>
      rcases hoperand.exists_logs with ⟨taken, htaken, hunclosed⟩
      rcases ih with ⟨followed, refused, hlogs, hunclosed', hrefuses⟩
      exact ⟨_, refused, (htaken.operator hnext hfollow).append hlogs,
        (hunclosed.cons (Level.ne_endOfInput hfollow)).append hunclosed', hrefuses⟩
  | restRefuse hnext _ =>
      exact ⟨[], _, Session.logs_refused hnext, unclosed_nil, .token _ rfl⟩
  | unaryEnd hend => exact ⟨[], [], (Session.logs_nil _).of_enter, unclosed_nil, .ending hend⟩
  | negated hnext hkind _ _ ih =>
      rcases ih with ⟨followed, refused, hlogs, hunclosed, hrefuses⟩
      exact ⟨_, refused, hlogs.negation hnext hkind, hunclosed.cons (by simp [hkind]), hrefuses⟩
  | negate hnext hkind _ hproduct _ =>
      rcases hproduct.exists_logs with ⟨taken, htaken, hunclosed⟩
      exact ⟨_, [], (htaken.negation hnext hkind).release, hunclosed.cons (by simp [hkind]),
        .arithmetic _⟩
  | tooDeep hnext _ _ => exact ⟨[], _, logs_unary_refused hnext, unclosed_nil, .token _ rfl⟩
  | @literal session token _ fault hnext _ _ =>
      refine ⟨[], _, logs_unary_refused hnext, unclosed_nil, .token _ ?_⟩
      cases fault <;> rfl
  | misplaced hnext _ _ => exact ⟨[], _, logs_unary_refused hnext, unclosed_nil, .token _ rfl⟩

end Phrase

end Calculator
