import Calculator.Proofs.Extent

/-!
# Where rules leave the cursor

A rule that has a value leaves the cursor where the next rule goes on: in front of the token
that ends it, with as many negations open as it found.  That token was read and pushed back, so
nothing is left to push back.  The exceptions are a number, and a closing marker that is all of
its expression: these end behind the token that they read.

Main results:

- Theorem `Phrase.Reads.exists_next_of_product`: the token behind a product has a place in the
  sum around it.
- Theorem `Phrase.Reads.position_eq_of_chain`: where a chain ends does not depend on the
  negations that are open.
- Theorem `rules_leave_off`: where each rule leaves the cursor.
-/

namespace Calculator

/-! ## What rules leave -/

/-- The cursor has come further on the same tokens, with as many negations open as before. -/
structure Session.Progresses (session after : Session) : Prop where
  position_lt : session.cursor.position < after.cursor.position
  tokens_eq : after.cursor.tokens = session.cursor.tokens
  nestingLimit_eq : after.cursor.nestingLimit = session.cursor.nestingLimit
  depth_eq : after.cursor.depth = session.cursor.depth

/-- There is nothing to push back. -/
def Session.RefusesUnread (session : Session) : Prop :=
  Parser.unread session = .error (.unreadRefused session.cursor.position) session

/-- The token in front of the cursor can be pushed back. -/
def Session.AllowsUnread (session : Session) : Prop :=
  ∃ before, Parser.unread session = .ok () before ∧
    before.cursor.position + 1 = session.cursor.position

section Rules

variable {session after : Session} {value : Int64}

/-- A token that was pushed back cannot be pushed back again. -/
theorem Session.refusesUnread (hcan : after.cursor.canUnread = false) : after.RefusesUnread := by
  simp [RefusesUnread, Parser.unread, Cursor.unread?, hcan]

theorem Session.allowsUnread_advance (session : Session) : session.advance.AllowsUnread :=
  ⟨session.peek, Parser.unread_advance session, rfl⟩

theorem FollowsNumber.ne_nil {read : List Token} (hnumber : FollowsNumber read) : read ≠ [] := by
  rintro rfl
  rcases hnumber with ⟨token, htoken, -⟩
  cases htoken

/-- A phrase that takes in a number at the end has come further. -/
theorem Phrase.Reads.progresses {phrase : Phrase} {taken : List Token}
    (hreads : Reads phrase session value after) (htakes : session.Takes taken after)
    (hnumber : FollowsNumber taken) : session.Progresses after where
  position_lt := by
    rw [htakes.position_eq]
    exact Nat.lt_add_of_pos_right (List.length_pos_iff.mpr hnumber.ne_nil)
  tokens_eq := hreads.frame.1
  nestingLimit_eq := hreads.frame.2.1
  depth_eq := hreads.frame.2.2

/-- A chain that has a value has come further. -/
theorem Phrase.Reads.chain_progresses {level : Level}
    (hreads : Reads (.chain level) session value after) : session.Progresses after := by
  rcases hreads.exists_takes with ⟨taken, htakes, hnumber, -⟩
  exact hreads.progresses htakes hnumber

/-- What a product leaves is never refused by the sum that it is a part of. -/
theorem Phrase.Reads.exists_next_of_product
    (hreads : Reads (.chain .product) session value after) :
    ∃ token later, Parser.next after = .ok token later ∧
      Level.sum.follow token.kind ≠ .refuse := by
  rcases hreads.stops with ⟨token, others, hnext, hstop⟩
  exact ⟨token, after.advance, Parser.next_cons hnext, Level.sum_follow_ne_refuse hstop⟩

/-- The operand of a product is a number, of which nothing is left, or a minus in front of a
product, which is left where the product ends. -/
theorem Phrase.Reads.unary_cases (hreads : Reads .unary session value after) :
    session.Progresses after ∧
      ∃ token ∈ session.cursor.tokens[session.cursor.position]?,
        (token.kind = .number ∧ after.cursor.position = session.cursor.position + 1 ∧
            after.AllowsUnread) ∨
          (token.kind = .minus ∧ after.RefusesUnread ∧
            ∃ inner middle,
              Reads (.chain .product) (session.enter .unary).advance.deepen inner middle ∧
                middle.cursor.position = after.cursor.position) := by
  rcases hreads.exists_takes with ⟨taken, htakes, hnumber, -⟩
  refine ⟨hreads.progresses htakes hnumber, ?_⟩
  have hcan := hreads.canUnread
  cases hreads with
  | number hnext hkind _ =>
      exact ⟨_, Session.getElem?_position hnext,
        .inl ⟨hkind, rfl, Session.allowsUnread_advance _⟩⟩
  | @negation _ middle _ _ inner _ hnext hkind _ hproduct _ =>
      exact ⟨_, Session.getElem?_position hnext,
        .inr ⟨hkind, Session.refusesUnread hproduct.canUnread, inner, middle, hproduct, rfl⟩⟩

/-- A chain that starts at the given place of the given tokens ends at one place only, however
many negations are open. -/
theorem Phrase.Reads.position_eq_of_chain {level : Level} {other middle : Session} {inner : Int64}
    (hreads : Reads (.chain level) session value after)
    (hother : Reads (.chain level) other inner middle)
    (htokens : other.cursor.tokens = session.cursor.tokens)
    (hposition : other.cursor.position = session.cursor.position) :
    middle.cursor.position = after.cursor.position := by
  have hends := hother.isLeast_ends
  rw [htokens, hposition] at hends
  exact hends.unique hreads.isLeast_ends

/-- An expression is a closing marker, which can be pushed back, or the sum behind the
cursor. -/
theorem Parser.expression_cases (hended : expression session = .ok value after) :
    ∃ token ∈ session.cursor.tokens[session.cursor.position]?,
      (token.kind = .endOfInput ∧ after = (session.enter .expression).advance) ∨
        (token.kind ≠ .endOfInput ∧
          Phrase.Reads (.chain .sum) (session.enter .expression).peek value after) := by
  cases hnext : session.upcoming with
  | nil =>
      rw [expression_nil hnext] at hended
      cases hended
  | cons token others =>
      refine ⟨token, Session.getElem?_position hnext, ?_⟩
      by_cases hkind : token.kind = .endOfInput
      · rw [expression_end hnext hkind] at hended
        cases hended
        exact .inl ⟨hkind, rfl⟩
      · rw [expression_sum hnext hkind] at hended
        exact .inr ⟨hkind, (@Phrase.parser_eq_ok_iff (.chain .sum) _ _ _).mp hended⟩

/-- Where each rule leaves the cursor.  A product is left at the least place that ends it, in
front of a token that the sum around it takes or stops at, and a sum at the first closing
marker.  The operand of a product is a number or ends with the product that it negates, and an
expression is a closing marker or a sum.  All of them come further, with as many negations open
as before, and the token that was read last can be pushed back only if it was the whole. -/
theorem rules_leave_off (session after : Session) (value : Int64) :
    (Parser.product session = .ok value after →
      session.Progresses after ∧ after.RefusesUnread ∧
        IsLeast (productEnds session.cursor.tokens session.cursor.position)
          after.cursor.position ∧
        ∃ token later, Parser.next after = .ok token later ∧
          Level.sum.follow token.kind ≠ .refuse) ∧
    (Parser.sum session = .ok value after →
      session.Progresses after ∧ after.RefusesUnread ∧
        IsLeast (sumEnds session.cursor.tokens session.cursor.position) after.cursor.position) ∧
    (Parser.unary session = .ok value after →
      session.Progresses after ∧
        ∃ token ∈ session.cursor.tokens[session.cursor.position]?,
          (token.kind = .number ∧ after.cursor.position = session.cursor.position + 1 ∧
            after.AllowsUnread) ∨
          (token.kind = .minus ∧ after.RefusesUnread ∧
            (∃ inner middle,
              Parser.product (session.enter .unary).advance.deepen = .ok inner middle ∧
                middle.cursor.position = after.cursor.position) ∧
            ∀ other inner middle, other.cursor.tokens = session.cursor.tokens →
              other.cursor.position = session.cursor.position + 1 →
                Parser.product other = .ok inner middle →
                  middle.cursor.position = after.cursor.position)) ∧
    (Parser.expression session = .ok value after →
      session.Progresses after ∧
        ∃ token ∈ session.cursor.tokens[session.cursor.position]?,
          (token.kind = .endOfInput ∧ after.cursor.position = session.cursor.position + 1 ∧
            after.AllowsUnread) ∨
          (token.kind ≠ .endOfInput ∧ after.RefusesUnread ∧
            Parser.sum (session.enter .expression).peek = .ok value after ∧
            IsLeast (sumEnds session.cursor.tokens session.cursor.position)
              after.cursor.position)) := by
  have hchain (level : Level) {session after : Session} {value : Int64} :
      Parser.chain level session = .ok value after ↔
        Phrase.Reads (.chain level) session value after :=
    @Phrase.parser_eq_ok_iff (.chain level) session after value
  refine ⟨fun hproduct => ?_, fun hsum => ?_, fun hunary => ?_, fun hexpression => ?_⟩
  · have hreads := (hchain .product).mp hproduct
    exact ⟨hreads.chain_progresses, Session.refusesUnread hreads.canUnread,
      hreads.isLeast_ends, hreads.exists_next_of_product⟩
  · have hreads := (hchain .sum).mp hsum
    exact ⟨hreads.chain_progresses, Session.refusesUnread hreads.canUnread,
      hreads.isLeast_ends⟩
  · have hreads := (@Phrase.parser_eq_ok_iff .unary session after value).mp hunary
    rcases hreads.unary_cases with
      ⟨hprogresses, token, htoken, hnumber | ⟨hkind, hrefused, inner, middle, hproduct, hsame⟩⟩
    · exact ⟨hprogresses, token, htoken, .inl hnumber⟩
    · refine ⟨hprogresses, token, htoken, .inr ⟨hkind, hrefused,
        ⟨inner, middle, (hchain .product).mpr hproduct, hsame⟩, ?_⟩⟩
      intro other inner' middle' htokens hposition hother
      rw [← hsame]
      exact hproduct.position_eq_of_chain ((hchain .product).mp hother) htokens hposition
  · rcases Parser.expression_cases hexpression with
      ⟨token, htoken, ⟨hkind, rfl⟩ | ⟨hkind, hsum⟩⟩
    · exact ⟨⟨Nat.lt_succ_self _, rfl, rfl, rfl⟩, token, htoken,
        .inl ⟨hkind, rfl, Session.allowsUnread_advance _⟩⟩
    · have hprogresses := hsum.chain_progresses
      exact ⟨⟨hprogresses.1, hprogresses.2, hprogresses.3, hprogresses.4⟩, token, htoken,
        .inr ⟨hkind, Session.refusesUnread hsum.canUnread, (hchain .sum).mpr hsum,
          hsum.isLeast_ends⟩⟩

end Rules

/-- Behind the number of `9 - -2 * 3 - 4`, with seven negations open. -/
def Session.amidMinuses : Session where
  cursor :=
    { tokens := #[⟨.number, "9"⟩, ⟨.minus, "-"⟩, ⟨.minus, "-"⟩, ⟨.number, "2"⟩, ⟨.star, "*"⟩,
        ⟨.number, "3"⟩, ⟨.minus, "-"⟩, ⟨.number, "4"⟩, ⟨.endOfInput, ""⟩]
      nestingLimit := some 256
      position := 1
      canUnread := true
      depth := 7 }
  log := #[]

/-- Both minuses in front of the factors are negations, and the minus behind the factors ends
the product and all that is negated. -/
theorem rules_leave_off_amid_minuses :
    (∃ after, Parser.product .amidMinuses = .ok 6 after ∧ after.cursor.position = 6 ∧
        IsLeast (productEnds Session.amidMinuses.cursor.tokens 1) 6) ∧
      (∃ after, Parser.sum .amidMinuses = .ok 2 after ∧ after.cursor.position = 8 ∧
        IsLeast (sumEnds Session.amidMinuses.cursor.tokens 1) 8) ∧
      (∃ after, Parser.unary .amidMinuses = .ok 6 after ∧ after.cursor.depth = 7) ∧
      ∃ after, Parser.expression .amidMinuses = .ok 2 after ∧ after.cursor.depth = 7 := by
  -- inside of the rules around it, a rule finds other entries in the log
  have hunary (canUnread : Bool) (log : Array Event) : ∃ after,
      Phrase.Reads .unary ⟨{ Session.amidMinuses.cursor with canUnread := canUnread }, log⟩ 6
        after ∧
      after.cursor = { Session.amidMinuses.cursor with position := 6, canUnread := false } := by
    refine ⟨_, .negation rfl rfl ?_ (.chain (.negation rfl rfl ?_ (.chain (.number rfl rfl rfl)
      (.more rfl rfl (.number rfl rfl rfl) rfl (.stop rfl rfl))) rfl) (.stop rfl rfl)) rfl, rfl⟩
    · exact rfl
    · exact rfl
  have hproduct (canUnread : Bool) (log : Array Event) : ∃ after,
      Phrase.Reads (.chain .product)
        ⟨{ Session.amidMinuses.cursor with canUnread := canUnread }, log⟩ 6 after ∧
      after.cursor = { Session.amidMinuses.cursor with position := 6, canUnread := false } := by
    rcases hunary canUnread (log.push (.entered .product 1)) with ⟨⟨_, _⟩, hreads, rfl⟩
    exact ⟨_, .chain hreads (.stop rfl rfl), rfl⟩
  have hsum (canUnread : Bool) (log : Array Event) : ∃ after,
      Phrase.Reads (.chain .sum)
        ⟨{ Session.amidMinuses.cursor with canUnread := canUnread }, log⟩ 2 after ∧
      after.cursor = { Session.amidMinuses.cursor with position := 8, canUnread := false } := by
    rcases hproduct canUnread (log.push (.entered .sum 1)) with ⟨⟨_, _⟩, hreads, rfl⟩
    exact ⟨_, .chain hreads (.more rfl rfl (.chain (.number rfl rfl rfl) (.stop rfl rfl)) rfl
      (.stop rfl rfl)), rfl⟩
  refine ⟨?_, ?_, ?_, ?_⟩
  · rcases hproduct true #[] with ⟨after, hreads, hcursor⟩
    have hends := ((rules_leave_off _ _ _).1 hreads.parser_eq).2.2.1
    rw [hcursor] at hends
    exact ⟨after, hreads.parser_eq, by rw [hcursor], hends⟩
  · rcases hsum true #[] with ⟨after, hreads, hcursor⟩
    have hends := ((rules_leave_off _ _ _).2.1 hreads.parser_eq).2.2
    rw [hcursor] at hends
    exact ⟨after, hreads.parser_eq, by rw [hcursor], hends⟩
  · rcases hunary true #[] with ⟨after, hreads, -⟩
    exact ⟨after, hreads.parser_eq, ((rules_leave_off _ _ _).2.2.1 hreads.parser_eq).1.depth_eq⟩
  · rcases hsum false #[.entered .expression 1] with ⟨after, hreads, -⟩
    have hexpression : Parser.expression .amidMinuses = .ok 2 after :=
      (Parser.expression_sum rfl (by decide)).trans hreads.parser_eq
    exact ⟨after, hexpression, ((rules_leave_off _ _ _).2.2.2 hexpression).1.depth_eq⟩

end Calculator
