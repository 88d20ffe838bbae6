import Calculator.Proofs.Trail

/-!
# Where failures leave the cursor

A rule that fails leaves the cursor behind the token at which it failed, or behind all tokens if
it ran out of them, and the negations that were open there stay open.  How many these are can be
counted on the tokens that were passed over: they are the negations since the last sign between
two terms, as such a sign is read only when the term in front of it is complete.

Main results:

- Theorem `Phrase.Fails.frame`: a failure stays on the same tokens, closes no negation that was
  open before, and opens none beyond the limit.
- Theorem `Phrase.Fails.exists_breaks`: what a grammatical failure leaves is counted on the
  tokens in front of the one that is refused.
- Theorem `failures_leave_off`: where each rule leaves the cursor when it fails.
-/

namespace Calculator

/-! ## Negations that are pending -/

/-- A sign between two terms: a plus or a minus right after a number. -/
def IsTermSign (read : List Token) (token : Token) : Prop :=
  (token.kind = .plus ∨ token.kind = .minus) ∧ FollowsNumber read

/-- A minus that stands anywhere but right after a number. -/
def IsNegation (read : List Token) (token : Token) : Prop :=
  token.kind = .minus ∧ ¬ FollowsNumber read

instance (read : List Token) (token : Token) : Decidable (IsTermSign read token) :=
  inferInstanceAs (Decidable (_ ∧ _))

instance (read : List Token) (token : Token) : Decidable (IsNegation read token) :=
  inferInstanceAs (Decidable (_ ∧ _))

/-- The number of negations since the last sign between two terms, or since the front. -/
def pendingNegations (read : List Token) : Nat :=
  countSince IsNegation IsTermSign read

section Pending

variable {read : List Token} {token : Token}

/-- A sign between two terms leaves no negation pending. -/
theorem pendingNegations_concat_sign (hsign : IsTermSign read token) :
    pendingNegations (read ++ [token]) = 0 :=
  countSince_concat_reset hsign fun hnegation => hnegation.2 hsign.2

/-- A minus that is no such sign is one more negation pending. -/
theorem pendingNegations_concat_minus (hkind : token.kind = .minus)
    (hplace : ¬ FollowsNumber read) :
    pendingNegations (read ++ [token]) = pendingNegations read + 1 := by
  have hcount : pendingNegations (read ++ [token]) = _ :=
    countSince_concat fun hsign => hplace hsign.2
  rw [hcount, if_pos ⟨hkind, hplace⟩]
  rfl

/-- Any other token leaves the negations pending. -/
theorem pendingNegations_concat_of_ne (hsign : ¬ IsTermSign read token)
    (hminus : token.kind ≠ .minus) :
    pendingNegations (read ++ [token]) = pendingNegations read :=
  countSince_concat_of_not hsign fun hnegation => hminus hnegation.1

/-- A token that is no sign at all is no sign between two terms. -/
theorem not_isTermSign (hplus : token.kind ≠ .plus) (hminus : token.kind ≠ .minus) :
    ¬ IsTermSign read token := by
  intro hsign
  rcases hsign.1 with hkind | hkind
  · exact hplus hkind
  · exact hminus hkind

end Pending

/-! ## The frame of a failure -/

/-- No more negations are open than the limit allows. -/
def Cursor.KeepsLimit (cursor : Cursor) : Prop :=
  ∀ limit ∈ cursor.nestingLimit, cursor.depth ≤ limit

/-- Where there is room, the depth is below the limit. -/
theorem Cursor.HasRoom.depth_lt {cursor : Cursor} {limit : Nat} (hroom : cursor.HasRoom)
    (hlimit : cursor.nestingLimit = some limit) : cursor.depth < limit := by
  simpa [HasRoom, hlimit] using hroom

/-- Where there is no room, the depth has reached the limit. -/
theorem Cursor.le_depth_of_not_hasRoom {cursor : Cursor} {limit : Nat}
    (hfull : ¬ cursor.HasRoom) (hlimit : cursor.nestingLimit = some limit) :
    limit ≤ cursor.depth := by
  simpa [HasRoom, hlimit] using hfull

/-- A negation for which there is room keeps the limit. -/
theorem Session.keepsLimit_deepen {session : Session} (hroom : session.cursor.HasRoom) :
    session.deepen.cursor.KeepsLimit :=
  fun _ hlimit => hroom.depth_lt hlimit

namespace Phrase

variable {phrase : Phrase} {session after : Session} {value : Int64} {cause : Failure}

/-- A failure stays on the same tokens and closes no negation that was open before. -/
theorem Fails.frame (hfails : Fails phrase session cause after) :
    after.cursor.tokens = session.cursor.tokens ∧
      after.cursor.nestingLimit = session.cursor.nestingLimit ∧
      session.cursor.depth ≤ after.cursor.depth := by
  induction hfails with
  | chainOperand _ ih => exact ih
  | chainRest hoperand _ ih =>
      rcases hoperand.frame with ⟨htokens, hlimit, hdepth⟩
      exact ⟨ih.1.trans htokens, ih.2.1.trans hlimit, hdepth ▸ ih.2.2⟩
  | restOperand _ _ _ ih => exact ih
  | restMore _ _ hoperand _ _ ih =>
      rcases hoperand.frame with ⟨htokens, hlimit, hdepth⟩
      exact ⟨ih.1.trans htokens, ih.2.1.trans hlimit, hdepth ▸ ih.2.2⟩
  | restApply _ _ hoperand _ =>
      rcases hoperand.frame with ⟨htokens, hlimit, hdepth⟩
      exact ⟨htokens, hlimit, Nat.le_of_eq hdepth.symm⟩
  | negated _ _ _ _ ih => exact ⟨ih.1, ih.2.1, Nat.le_of_succ_le ih.2.2⟩
  | negate _ _ _ hproduct _ =>
      rcases hproduct.frame with ⟨htokens, hlimit, hdepth⟩
      refine ⟨htokens, hlimit, ?_⟩
      rw [Session.release_cursor, hdepth]
      exact Nat.le_refl _
  | restEnd | restRefuse | unaryEnd | tooDeep | literal | misplaced =>
      exact ⟨rfl, rfl, Nat.le_refl _⟩

/-- A reading leaves as many negations open as it found. -/
theorem Reads.keepsLimit (hreads : Reads phrase session value after)
    (hkeeps : session.cursor.KeepsLimit) : after.cursor.KeepsLimit := by
  rcases hreads.frame with ⟨-, hsame, hdepth⟩
  intro limit hlimit
  rw [hdepth]
  exact hkeeps limit (hsame.symm.trans hlimit)

/-- A failure opens no negation beyond the limit. -/
theorem Fails.keepsLimit (hfails : Fails phrase session cause after)
    (hkeeps : session.cursor.KeepsLimit) : after.cursor.KeepsLimit := by
  induction hfails with
  | chainOperand _ ih => exact ih hkeeps
  | chainRest hoperand _ ih => exact ih (hoperand.keepsLimit hkeeps)
  | restOperand _ _ _ ih => exact ih hkeeps
  | restApply _ _ hoperand _ => exact hoperand.keepsLimit hkeeps
  | restMore _ _ hoperand _ _ ih => exact ih (hoperand.keepsLimit hkeeps)
  | negated _ _ hroom _ ih => exact ih (Session.keepsLimit_deepen hroom)
  | negate _ _ hroom hproduct _ =>
      have hinner := hproduct.keepsLimit (Session.keepsLimit_deepen hroom)
      intro limit hlimit
      exact Nat.le_trans (Nat.sub_le _ 1) (hinner limit hlimit)
  | restEnd | restRefuse | unaryEnd | tooDeep | literal | misplaced => exact hkeeps

end Phrase

/-! ## What the tokens say so far -/

/-- From one session to another, the cursor has passed over the given tokens, none of which is
a closing marker. -/
structure Session.Covers (start : Session) (read : List Token) (session : Session) : Prop where
  takes : start.Takes read session
  unclosed : Unclosed read

/-- The negations opened from one session to another are those pending after the tokens that
the cursor has passed over. -/
structure Session.Tracks (start : Session) (read : List Token) (session : Session) : Prop where
  covers : start.Covers read session
  depth_eq : session.cursor.depth = start.cursor.depth + pendingNegations read

/-- An operand of the level comes next.  In front of a term of the sum, no negation is open that
was not open at the start. -/
def Level.Awaits : Level → Session → List Token → Session → Prop
  | sum, start, read, session =>
      start.Tracks read session ∧ ¬ FollowsNumber read ∧
        session.cursor.depth = start.cursor.depth
  | product, start, read, session => start.Tracks read session ∧ ¬ FollowsNumber read

/-- An operand of the level was just read.  A term of the sum is complete, with all of its
negations closed, and so is a product after a negation; after a number a product can go on. -/
def Level.Holds : Level → Session → List Token → Session → Prop
  | sum, start, read, session =>
      start.Covers read session ∧ FollowsNumber read ∧
        session.cursor.depth = start.cursor.depth ∧
          Phrase.Stops product session.upcoming
  | product, start, read, session =>
      Phrase.Stops product session.upcoming ∨
        (start.Tracks read session ∧ FollowsNumber read)

/-- What is known in front of a phrase, of the tokens that were read since the start. -/
def Phrase.Meets : Phrase → Session → List Token → Session → Prop
  | chain level => level.Awaits
  | rest level _ => level.Holds
  | unary => Level.product.Awaits

section Tracking

variable {start session middle after : Session} {read taken others : List Token} {token : Token}
  {level : Level} {op : Operator} {value : Int64}

theorem Session.covers_self (start : Session) : start.Covers [] start :=
  ⟨start.takes_nil, unclosed_nil⟩

theorem Session.tracks_self (start : Session) : start.Tracks [] start :=
  ⟨start.covers_self, rfl⟩

theorem Session.Covers.enter (hcovers : start.Covers read session) (rule : Rule) :
    start.Covers read (session.enter rule) :=
  ⟨⟨hcovers.takes.1, hcovers.takes.2⟩, hcovers.unclosed⟩

theorem Session.Tracks.enter (htracks : start.Tracks read session) (rule : Rule) :
    start.Tracks read (session.enter rule) :=
  ⟨htracks.covers.enter rule, htracks.depth_eq⟩

/-- What is covered at two stretches is covered at one. -/
theorem Session.Covers.append (hcovers : start.Covers read session)
    (htaken : session.Covers taken after) : start.Covers (read ++ taken) after :=
  ⟨hcovers.takes.trans htaken.takes, hcovers.unclosed.append htaken.unclosed⟩

/-- Reading a token other than the closing marker covers it. -/
theorem Session.covers_advance (hnext : session.upcoming = token :: others)
    (hkind : token.kind ≠ .endOfInput) : session.Covers [token] session.advance :=
  ⟨takes_advance hnext, unclosed_nil.cons hkind⟩

/-- A token that neither closes nor opens a negation is passed over. -/
theorem Session.Tracks.advance (htracks : start.Tracks read session)
    (hnext : session.upcoming = token :: others) (hend : token.kind ≠ .endOfInput)
    (hsign : ¬ IsTermSign read token) (hminus : token.kind ≠ .minus) :
    start.Tracks (read ++ [token]) session.advance where
  covers := htracks.covers.append (covers_advance hnext hend)
  depth_eq := by
    rw [pendingNegations_concat_of_ne hsign hminus]
    exact htracks.depth_eq

/-- A minus in the place of an operand opens one more negation. -/
theorem Level.Awaits.negation (hawaits : product.Awaits start read session)
    (hnext : session.upcoming = token :: others) (hkind : token.kind = .minus) :
    product.Awaits start (read ++ [token]) (session.enter .unary).advance.deepen := by
  rcases hawaits with ⟨htracks, hplace⟩
  have hentered : (session.enter .unary).upcoming = token :: others := hnext
  have hcovers := (htracks.covers.enter .unary).append
    (Session.covers_advance hentered (by simp [hkind]))
  refine ⟨⟨⟨⟨hcovers.takes.1, hcovers.takes.2⟩, hcovers.unclosed⟩, ?_⟩, ?_⟩
  · rw [pendingNegations_concat_minus hkind hplace, ← Nat.add_assoc, ← htracks.depth_eq]
    rfl
  · rw [followsNumber_concat, hkind]
    simp

theorem Level.Awaits.enter (hawaits : level.Awaits start read session) (rule : Rule) :
    level.Awaits start read (session.enter rule) := by
  cases level with
  | sum => exact ⟨hawaits.1.enter rule, hawaits.2⟩
  | product => exact ⟨hawaits.1.enter rule, hawaits.2⟩

/-- The operand of a level comes next where the level awaits it. -/
theorem Level.Awaits.meets (hawaits : level.Awaits start read session) :
    (Phrase.operand level).Meets start read session := by
  cases level with
  | sum => exact ⟨hawaits.1, hawaits.2.1⟩
  | product => exact hawaits

/-- After an operator that goes on with a chain, the next operand is awaited. -/
theorem Level.Holds.awaits (hholds : level.Holds start read session)
    (hnext : session.upcoming = token :: others)
    (hfollow : level.follow token.kind = .operator op) :
    level.Awaits start (read ++ [token]) session.advance := by
  have hend : token.kind ≠ .endOfInput := Level.ne_endOfInput hfollow
  have hplace : ¬ FollowsNumber (read ++ [token]) := by
    rw [followsNumber_concat]
    intro hkind
    rw [hkind] at hfollow
    cases level <;> cases hfollow
  cases level with
  | sum =>
      rcases hholds with ⟨hcovers, hnumber, hdepth, -⟩
      have hsign : IsTermSign read token := by
        refine ⟨?_, hnumber⟩
        cases hkind : token.kind <;> rw [hkind] at hfollow <;> cases hfollow <;> simp
      refine ⟨⟨hcovers.append (Session.covers_advance hnext hend), ?_⟩, hplace, hdepth⟩
      rw [pendingNegations_concat_sign hsign, Nat.add_zero]
      exact hdepth
  | product =>
      rcases hholds with ⟨stopping, later, hupcoming, hstop⟩ | ⟨htracks, -⟩
      · -- after a negation, nothing goes on with the product
        rw [hnext] at hupcoming
        cases hupcoming
        rw [hfollow] at hstop
        cases hstop
      · have hfactor : token.kind = .star ∨ token.kind = .slash := by
          cases hkind : token.kind <;> rw [hkind] at hfollow <;> cases hfollow <;> simp
        have hplus : token.kind ≠ .plus := by rcases hfactor with hkind | hkind <;> simp [hkind]
        have hminus : token.kind ≠ .minus := by rcases hfactor with hkind | hkind <;> simp [hkind]
        exact ⟨htracks.advance hnext hend (not_isTermSign hplus hminus) hminus, hplace⟩

/-- No token that a chain takes in is a closing marker. -/
theorem Level.Passes.unclosed {front : List Token} (hpasses : level.Passes front taken) :
    Unclosed taken := by
  intro token htoken hkind
  rcases List.mem_iff_getElem?.mp htoken with ⟨i, hi⟩
  apply hpasses i token hi
  cases level with
  | sum => exact hkind
  | product => exact .inl hkind

/-- Where the operand of a level was read, the level holds it. -/
theorem Phrase.Reads.exists_holds (hreads : Reads (operand level) session value middle)
    (hawaits : level.Awaits start read session) :
    ∃ read', level.Holds start read' middle := by
  cases level with
  | sum =>
      rcases hawaits with ⟨htracks, -, hdepth⟩
      rcases hreads.exists_takes with ⟨taken, htakes, hnumber, hpasses⟩
      have hunclosed : Unclosed taken := (hpasses [] expectsOperand_nil).unclosed
      exact ⟨read ++ taken, htracks.covers.append ⟨htakes, hunclosed⟩, hnumber.append,
        hreads.frame.2.2.trans hdepth, hreads.stops⟩
  | product =>
      rcases hawaits with ⟨htracks, hplace⟩
      cases hreads with
      | @number _ token others _ hnext hkind _ =>
          have hentered : (session.enter .unary).upcoming = token :: others := hnext
          refine ⟨read ++ [token], .inr ⟨?_, followsNumber_concat.mpr hkind⟩⟩
          exact (htracks.enter .unary).advance hentered (by simp [hkind])
            (fun hsign => hplace hsign.2) (by simp [hkind])
      | negation _ _ _ hproduct _ => exact ⟨read, .inl hproduct.stops⟩

end Tracking

/-! ## The token that is refused -/

/-- The token that is refused by an error at the cursor of the session, after the tokens read:
none for want of tokens, and otherwise the token in front of the cursor. -/
inductive GrammarError.Refuses (read : List Token) (after : Session) :
    GrammarError → List Token → Prop where
  | ending (hend : after.upcoming = []) :
      Refuses read after (.unexpectedEnd after.cursor.position) []
  | unexpected {token : Token} (hminus : token.kind ≠ .minus) (hsign : ¬ IsTermSign read token) :
      Refuses read after (.unexpectedToken token.text after.cursor.position) [token]
  | literal {token : Token} (fault : Numeral.Fault) (hkind : token.kind = .number) :
      Refuses read after (fault.error token.text after.cursor.position) [token]
  | nesting {token : Token} (hkind : token.kind = .minus) (hfull : ¬ after.cursor.HasRoom) :
      Refuses read after (.nestingTooDeep after.cursor.position) [token]

/-- A grammatical failure leaves the cursor behind the tokens read and the one that is refused,
and the negations open that are pending after the tokens read. -/
structure Session.Breaks (start : Session) (read refused : List Token) (error : GrammarError)
    (after : Session) : Prop where
  takes : start.Takes (read ++ refused) after
  unclosed : Unclosed read
  depth_eq : after.cursor.depth = start.cursor.depth + pendingNegations read
  refuses : error.Refuses read after refused

section Breaks

variable {start session after : Session} {read others : List Token} {token : Token}
  {error : GrammarError}

/-- A failure for want of tokens. -/
theorem Session.Tracks.breaks_end (htracks : start.Tracks read session)
    (hend : session.upcoming = []) :
    start.Breaks read [] (.unexpectedEnd session.cursor.position) session where
  takes := by
    rw [List.append_nil]
    exact htracks.covers.takes
  unclosed := htracks.covers.unclosed
  depth_eq := htracks.depth_eq
  refuses := .ending hend

/-- A failure at the next token. -/
theorem Session.Tracks.breaks (htracks : start.Tracks read session)
    (hnext : session.upcoming = token :: others)
    (hrefuses : error.Refuses read session.advance [token]) :
    start.Breaks read [token] error session.advance where
  takes := htracks.covers.takes.trans (takes_advance hnext)
  unclosed := htracks.covers.unclosed
  depth_eq := htracks.depth_eq
  refuses := hrefuses

/-- What a grammatical failure leaves is counted on the tokens in front of the one that is
refused. -/
theorem Phrase.Fails.exists_breaks {phrase : Phrase} {cause : Failure}
    (hfails : Fails phrase session cause after) (hcause : cause = .grammatical error)
    (hmeets : phrase.Meets start read session) :
    ∃ read' refused, start.Breaks read' refused error after := by
  induction hfails generalizing read with
  | @chainOperand level _ _ _ _ ih => exact ih hcause (Level.Awaits.enter hmeets level.rule).meets
  | @chainRest level _ _ _ _ _ hoperand _ ih =>
      rcases hoperand.exists_holds (Level.Awaits.enter hmeets level.rule) with ⟨read', hholds⟩
      exact ih hcause hholds
  | @restEnd level _ _ hend =>
      cases hcause
      -- only a product can run out of tokens here: a sum goes on with what ended its product
      cases level with
      | sum =>
          rcases hmeets with ⟨-, -, -, token, others, hupcoming, -⟩
          rw [hend] at hupcoming
          cases hupcoming
      | product =>
          rcases hmeets with ⟨token, others, hupcoming, -⟩ | ⟨htracks, -⟩
          · rw [hend] at hupcoming
            cases hupcoming
          · exact ⟨read, [], htracks.breaks_end hend⟩
  | restOperand hnext hfollow _ ih =>
      exact ih hcause (Level.Holds.awaits hmeets hnext hfollow).meets
  | restApply => cases hcause
  | restMore hnext hfollow hoperand _ _ ih =>
      rcases hoperand.exists_holds (Level.Holds.awaits hmeets hnext hfollow) with
        ⟨read', hholds⟩
      exact ih hcause hholds
  | @restRefuse level _ token _ _ hnext hfollow =>
      cases hcause
      cases level with
      | sum =>
          rcases hmeets with ⟨-, -, -, stopping, others, hupcoming, hstop⟩
          rw [hnext] at hupcoming
          cases hupcoming
          exact absurd hfollow (Level.sum_follow_ne_refuse hstop)
      | product =>
          rcases hmeets with ⟨stopping, others, hupcoming, hstop⟩ | ⟨htracks, -⟩
          · rw [hnext] at hupcoming
            cases hupcoming
            rw [hfollow] at hstop
            cases hstop
          · have hkind : token.kind = .number := by
              cases hkind : token.kind <;> rw [hkind] at hfollow <;> cases hfollow
            refine ⟨read, [token], htracks.breaks hnext ?_⟩
            exact .unexpected (by simp [hkind])
              (not_isTermSign (by simp [hkind]) (by simp [hkind]))
  | unaryEnd hend =>
      cases hcause
      exact ⟨read, [], (hmeets.1.enter .unary).breaks_end hend⟩
  | @tooDeep _ token _ hnext hkind hfull =>
      cases hcause
      exact ⟨read, [token], (hmeets.1.enter .unary).breaks hnext (.nesting hkind hfull)⟩
  | negated hnext hkind _ _ ih => exact ih hcause (Level.Awaits.negation hmeets hnext hkind)
  | negate => cases hcause
  | @literal _ token _ fault hnext hkind _ =>
      cases hcause
      exact ⟨read, [token], (hmeets.1.enter .unary).breaks hnext (.literal fault hkind)⟩
  | @misplaced _ token _ hnext hminus _ =>
      cases hcause
      refine ⟨read, [token], (hmeets.1.enter .unary).breaks hnext (.unexpected hminus ?_)⟩
      exact fun hsign => hmeets.2 hsign.2

end Breaks

/-! ## Rules that fail -/

/-- A phrase is read on the same cursor, for nothing was read in front of it. -/
structure Session.Opens (session : Session) (phrase : Phrase) (session' : Session) : Prop where
  meets : phrase.Meets session [] session'
  tokens_eq : session'.cursor.tokens = session.cursor.tokens
  nestingLimit_eq : session'.cursor.nestingLimit = session.cursor.nestingLimit
  depth_eq : session'.cursor.depth = session.cursor.depth

section Rules

variable {session after : Session} {rule : Rule} {cause : Failure} {error : GrammarError}
  {read refused taken others : List Token}

theorem not_followsNumber_nil : ¬ FollowsNumber [] :=
  fun hnumber => hnumber.not_expectsOperand expectsOperand_nil

/-- The phrases with which a rule can start. -/
theorem Session.opens_self (session : Session) :
    (∀ level, session.Opens (.chain level) session) ∧ session.Opens .unary session := by
  have htracks := session.tracks_self
  refine ⟨fun level => ⟨?_, rfl, rfl, rfl⟩, ⟨⟨htracks, not_followsNumber_nil⟩, rfl, rfl, rfl⟩⟩
  cases level with
  | sum => exact ⟨htracks, not_followsNumber_nil, rfl⟩
  | product => exact ⟨htracks, not_followsNumber_nil⟩

/-- In an expression, the sum starts where the expression does. -/
theorem Session.opens_expression (session : Session) :
    session.Opens (.chain .sum) (session.enter .expression).peek :=
  have htracks : session.Tracks [] (session.enter .expression).peek :=
    ⟨⟨⟨rfl, rfl⟩, unclosed_nil⟩, rfl⟩
  ⟨⟨htracks, not_followsNumber_nil, rfl⟩, rfl, rfl, rfl⟩

/-- A rule that fails is a phrase that fails, or an expression for which there are no tokens. -/
theorem Parser.fails_of_ofRule (hfailed : ofRule rule session = .error (.failure cause) after) :
    (session.upcoming = [] ∧
        cause = .grammatical (.unexpectedEnd session.cursor.position) ∧
        after = session.enter .expression) ∨
      ∃ phrase session', session.Opens phrase session' ∧
        Phrase.Fails phrase session' cause after := by
  have hphrase : ∀ {phrase : Phrase} {session' : Session},
      phrase.parser session' = .error (.failure cause) after →
        Phrase.Fails phrase session' cause after :=
    Phrase.parser_eq_error_iff.mp
  cases rule with
  | sum => exact .inr ⟨.chain .sum, session, session.opens_self.1 .sum, hphrase hfailed⟩
  | product =>
      exact .inr ⟨.chain .product, session, session.opens_self.1 .product, hphrase hfailed⟩
  | unary => exact .inr ⟨.unary, session, session.opens_self.2, hphrase hfailed⟩
  | expression =>
      have hexpression : expression session = .error (.failure cause) after := hfailed
      cases hnext : session.upcoming with
      | nil =>
          rw [expression_nil hnext] at hexpression
          cases hexpression
          exact .inl ⟨rfl, rfl, rfl⟩
      | cons token others =>
        by_cases hkind : token.kind = .endOfInput
        · rw [expression_end hnext hkind] at hexpression
          cases hexpression
        · rw [expression_sum hnext hkind] at hexpression
          exact .inr ⟨.chain .sum, _, session.opens_expression, hphrase hexpression⟩

/-- A rule that fails for a grammatical cause breaks off. -/
theorem Parser.exists_breaks
    (hfailed : ofRule rule session = .error (.failure (.grammatical error)) after) :
    ∃ read refused, session.Breaks read refused error after := by
  rcases fails_of_ofRule hfailed with ⟨hend, hcause, rfl⟩ | ⟨phrase, session', hopens, hfails⟩
  · cases hcause
    exact ⟨[], [], (session.tracks_self.enter .expression).breaks_end hend⟩
  · exact hfails.exists_breaks rfl hopens.meets

/-- A rule that fails stays on the same tokens, closes no negation that was open before, and
opens none beyond the limit. -/
theorem Parser.frame_of_ofRule (hfailed : ofRule rule session = .error (.failure cause) after) :
    after.cursor.tokens = session.cursor.tokens ∧
      after.cursor.nestingLimit = session.cursor.nestingLimit ∧
      session.cursor.depth ≤ after.cursor.depth ∧
      (session.cursor.KeepsLimit → after.cursor.KeepsLimit) := by
  rcases fails_of_ofRule hfailed with ⟨-, -, rfl⟩ | ⟨phrase, session', hopens, hfails⟩
  · exact ⟨rfl, rfl, Nat.le_refl _, id⟩
  · rcases hfails.frame with ⟨htokens, hlimit, hdepth⟩
    refine ⟨htokens.trans hopens.tokens_eq, hlimit.trans hopens.nestingLimit_eq,
      hopens.depth_eq ▸ hdepth, fun hkeeps => hfails.keepsLimit ?_⟩
    intro limit hsame
    rw [hopens.depth_eq]
    exact hkeeps limit (hopens.nestingLimit_eq ▸ hsame)

/-! ## What is left, by places -/

/-- The tokens that come first behind the cursor, by their places. -/
theorem Session.extract_eq (hupcoming : session.upcoming = taken ++ others) :
    (session.cursor.tokens.extract session.cursor.position
      (session.cursor.position + taken.length)).toList = taken := by
  have hdrop : session.cursor.tokens.toList.drop session.cursor.position = taken ++ others :=
    hupcoming
  rw [Array.toList_extract, List.extract_eq_take_drop, Nat.add_sub_cancel_left, hdrop,
    List.take_left]

/-- What an error says of the token that it is about.  No token is to blame for a want of
tokens. -/
def GrammarError.Blames (token : Token) : GrammarError → Prop
  | unexpectedToken text _ => token.text = text
  | unexpectedEnd _ => False
  | literalTooLarge text _ => token.text = text ∧ token.kind = .number
  | nestingTooDeep _ => token.kind = .minus
  | malformedLiteral text _ => token.text = text ∧ token.kind = .number

/-- The position of an error is that of the cursor. -/
theorem Session.Breaks.position_eq (hbreaks : session.Breaks read refused error after) :
    error.position = after.cursor.position := by
  cases hbreaks.refuses with
  | ending => rfl
  | unexpected => rfl
  | literal fault => cases fault <;> rfl
  | nesting => rfl

/-- Tokens run out behind the last of them, and none of those in front is a closing marker. -/
theorem Session.Breaks.of_unexpectedEnd {position : Nat}
    (hbreaks : session.Breaks read refused (.unexpectedEnd position) after)
    (hinside : session.cursor.position ≤ session.cursor.tokens.size) :
    position = session.cursor.tokens.size ∧
      ∀ i token, session.cursor.position ≤ i → session.cursor.tokens[i]? = some token →
        token.kind ≠ .endOfInput := by
  have hposition := hbreaks.position_eq
  have htakes := hbreaks.takes
  generalize herror : GrammarError.unexpectedEnd position = error at *
  cases hbreaks.refuses with
  | unexpected => cases herror
  | literal fault => cases fault <;> cases herror
  | nesting => cases herror
  | ending hend =>
    have hupcoming : session.upcoming = read := by
      rw [htakes.upcoming_eq, hend, List.append_nil, List.append_nil]
    constructor
    · have hlength : session.upcoming.length =
          session.cursor.tokens.size - session.cursor.position := by
        simp [upcoming]
      have hafter := htakes.position_eq
      rw [List.append_nil, ← hupcoming, hlength] at hafter
      cases herror
      omega
    · intro i token hle htoken
      rcases Nat.exists_eq_add_of_le hle with ⟨k, rfl⟩
      rw [session.getElem?_tokens, hupcoming] at htoken
      exact hbreaks.unclosed token (List.mem_of_getElem? htoken)

/-- Any other error is about the token in front of the cursor. -/
theorem Session.Breaks.exists_blames (hbreaks : session.Breaks read refused error after)
    (herror : ∀ position, error ≠ .unexpectedEnd position) :
    session.cursor.position < error.position ∧ error.position ≤ session.cursor.tokens.size ∧
      ∃ token, session.cursor.tokens[error.position - 1]? = some token ∧ error.Blames token := by
  have htoken : ∃ token, refused = [token] ∧ error.Blames token := by
    cases hbreaks.refuses with
    | ending => exact absurd rfl (herror _)
    | unexpected => exact ⟨_, rfl, rfl⟩
    | literal fault hkind => exact ⟨_, rfl, by cases fault <;> exact ⟨rfl, hkind⟩⟩
    | nesting hkind => exact ⟨_, rfl, hkind⟩
  rcases htoken with ⟨token, rfl, hblames⟩
  have hafter := hbreaks.takes.position_eq
  rw [← hbreaks.position_eq, List.length_append, List.length_singleton, ← Nat.add_assoc] at hafter
  have hlast : session.cursor.tokens[session.cursor.position + read.length]? = some token := by
    rw [session.getElem?_tokens, hbreaks.takes.upcoming_eq]
    simp
  have hinside := (Array.getElem?_eq_some_iff.mp hlast).1
  refine ⟨by omega, by omega, token, ?_, hblames⟩
  rw [hafter, Nat.add_sub_cancel]
  exact hlast

/-- The negations opened are those pending after the tokens that were passed over: a token that
is refused makes no difference, unless it is refused for the nesting. -/
theorem Session.Breaks.depth_eq_pending (hbreaks : session.Breaks read refused error after)
    (herror : ∀ position, error ≠ .nestingTooDeep position) :
    after.cursor.depth = session.cursor.depth + pendingNegations
      (session.cursor.tokens.extract session.cursor.position after.cursor.position).toList := by
  have hsame : pendingNegations (read ++ refused) = pendingNegations read := by
    cases hbreaks.refuses with
    | ending => rw [List.append_nil]
    | unexpected hminus hsign => exact pendingNegations_concat_of_ne hsign hminus
    | literal fault hkind =>
        exact pendingNegations_concat_of_ne
          (not_isTermSign (by simp [hkind]) (by simp [hkind])) (by simp [hkind])
    | nesting => exact absurd rfl (herror _)
  rw [hbreaks.takes.position_eq, Session.extract_eq hbreaks.takes.upcoming_eq, hsame]
  exact hbreaks.depth_eq

/-- A minus that is refused for the nesting finds as many negations open as the limit allows, and
is not one of those that are pending. -/
theorem Session.Breaks.of_nestingTooDeep {position limit : Nat}
    (hbreaks : session.Breaks read refused (.nestingTooDeep position) after)
    (hlimit : after.cursor.nestingLimit = some limit) :
    limit ≤ after.cursor.depth ∧
      after.cursor.depth = session.cursor.depth + pendingNegations
        (session.cursor.tokens.extract session.cursor.position
          (after.cursor.position - 1)).toList := by
  generalize herror : GrammarError.nestingTooDeep position = error at hbreaks
  cases hbreaks.refuses with
  | ending => cases herror
  | unexpected => cases herror
  | literal fault => cases fault <;> cases herror
  | @nesting token _ hfull =>
    have hposition : after.cursor.position - 1 = session.cursor.position + read.length := by
      rw [hbreaks.takes.position_eq, List.length_append, List.length_singleton]
      omega
    have hupcoming := hbreaks.takes.upcoming_eq
    rw [List.append_assoc] at hupcoming
    rw [hposition, Session.extract_eq hupcoming]
    exact ⟨Cursor.le_depth_of_not_hasRoom hfull hlimit, hbreaks.depth_eq⟩

/-- Where each rule leaves the cursor when it fails.  It stays on the same tokens, it closes no
negation that was open before, and the failure is never a refused push back.  A grammatical error
has the position of the cursor: behind all tokens, none of which is a closing marker, if they ran
out, and otherwise right behind the token that the error is about.  The negations opened are
those since the last sign between two terms, without the minus that is one too many. -/
theorem failures_leave_off (rule : Rule) (session after : Session) (interrupt : Interrupt)
    (hlimit : session.cursor.nestingLimit = some 256)
    (hinside : session.cursor.position ≤ session.cursor.tokens.size)
    (hdepth : session.cursor.depth ≤ 256)
    (hfailed : Parser.ofRule rule session = .error interrupt after) :
    after.cursor.tokens = session.cursor.tokens ∧
    session.cursor.depth ≤ after.cursor.depth ∧ after.cursor.depth ≤ 256 ∧
    ∃ cause, interrupt = .failure cause ∧ ∀ error, cause = .grammatical error →
      error.position = after.cursor.position ∧
      (match error with
        | .unexpectedEnd position =>
            position = session.cursor.tokens.size ∧
              ∀ i token, session.cursor.position ≤ i →
                session.cursor.tokens[i]? = some token → token.kind ≠ .endOfInput
        | _ =>
            session.cursor.position < error.position ∧
              error.position ≤ session.cursor.tokens.size ∧
              ∃ token, session.cursor.tokens[error.position - 1]? = some token ∧
                error.Blames token) ∧
      (match error with
        | .nestingTooDeep _ =>
            after.cursor.depth = 256 ∧
              after.cursor.depth = session.cursor.depth + pendingNegations
                (session.cursor.tokens.extract session.cursor.position
                  (after.cursor.position - 1)).toList
        | _ =>
            after.cursor.depth = session.cursor.depth + pendingNegations
              (session.cursor.tokens.extract session.cursor.position
                after.cursor.position).toList) := by
  rcases interrupt with cause | position
  · rcases Parser.frame_of_ofRule hfailed with ⟨htokens, hsame, hle, hkeeps⟩
    have hwithin : after.cursor.depth ≤ 256 := by
      refine hkeeps (fun limit hmem => ?_) 256 (hsame.trans hlimit)
      rw [hlimit] at hmem
      cases hmem
      exact hdepth
    refine ⟨htokens, hle, hwithin, cause, rfl, ?_⟩
    rintro error rfl
    rcases Parser.exists_breaks hfailed with ⟨read, refused, hbreaks⟩
    refine ⟨hbreaks.position_eq, ?_, ?_⟩
    · cases error with
      | unexpectedEnd position => exact hbreaks.of_unexpectedEnd hinside
      | _ => exact hbreaks.exists_blames (by simp)
    · cases error with
      | nestingTooDeep position =>
          rcases hbreaks.of_nestingTooDeep (hsame.trans hlimit) with ⟨hfull, hpending⟩
          exact ⟨Nat.le_antisymm hwithin hfull, hpending⟩
      | _ => exact hbreaks.depth_eq_pending (by simp)
  · exact absurd hfailed Parser.ofRule_ne_unreadRefused

end Rules

/-- In front of `9 - -2 * -+`, with seven negations open. -/
def Session.beforePlus : Session where
  cursor :=
    { tokens := #[⟨.number, "9"⟩, ⟨.minus, "-"⟩, ⟨.minus, "-"⟩, ⟨.number, "2"⟩, ⟨.star, "*"⟩,
        ⟨.minus, "-"⟩, ⟨.plus, "+"⟩]
      nestingLimit := some 256
      position := 0
      canUnread := false
      depth := 7 }
  log := #[]

/-- Of the three minuses in front of the plus, the first stands between two terms, so the other
two are open when the plus is refused. -/
theorem failures_leave_off_at_plus :
    ∃ after, Parser.sum .beforePlus =
        .error (.failure (.grammatical (.unexpectedToken "+" 7))) after ∧
      after.cursor.position = 7 ∧
      after.cursor.depth =
        7 + pendingNegations (Session.beforePlus.cursor.tokens.extract 0 7).toList ∧
      pendingNegations (Session.beforePlus.cursor.tokens.extract 0 7).toList = 2 := by
  have hfailed : ∃ after, Phrase.Fails (.chain .sum) .beforePlus
      (.grammatical (.unexpectedToken "+" 7)) after := by
    -- a number in front of the sign, and behind it a number and two negations
    refine ⟨_, .chainRest (.chain (.number rfl rfl rfl) (.stop rfl rfl))
      (.restOperand rfl rfl (.chainOperand (.negated rfl rfl ?_ (.chainRest (.number rfl rfl rfl)
        (.restOperand rfl rfl (.negated rfl rfl ?_ (.chainOperand
          (@Phrase.Fails.misplaced _ ⟨.plus, "+"⟩ [] rfl ?_ ?_))))))))⟩
    · exact rfl
    · exact rfl
    · decide
    · decide
  rcases hfailed with ⟨after, hfails⟩
  rcases (failures_leave_off .sum _ _ _ rfl (by decide) (by decide) hfails.parser_eq).2.2.2 with
    ⟨_, ⟨⟩, herror⟩
  rcases herror _ rfl with ⟨hposition, -, hdepth⟩
  have hdepth : after.cursor.depth = 7 + pendingNegations
      (Session.beforePlus.cursor.tokens.extract 0 after.cursor.position).toList := hdepth
  rw [← hposition] at hdepth
  exact ⟨after, hfails.parser_eq, hposition.symm, hdepth, by decide⟩

end Calculator
