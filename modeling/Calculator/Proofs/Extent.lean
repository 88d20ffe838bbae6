import Calculator.Proofs.Placement
import Calculator.Proofs.Reading
import Mathlib.Order.Bounds.Basic

/-!
# Where a phrase ends

A phrase that is read to a value takes in some of the tokens behind the cursor and leaves the
others.  Which it takes in does not depend on how many phrases it is made of: a sum ends in
front of the first closing marker, and a product in front of the first marker, plus, or minus
that stands right after a number, wherever the negations in between started.

Main results:

- Theorem `Phrase.Reads.exists_takes`: a phrase takes in tokens up to the first that ends it.
- Theorem `Phrase.Reads.isLeast_ends`: a chain ends in front of the first token that ends it.
- Theorem `Phrase.Reads.canUnread`: only the token of a number is still there to be pushed
  back.
-/

namespace Calculator

/-! ## Tokens taken in -/

/-- From one session to another, the cursor has passed over the given tokens. -/
structure Session.Takes (session : Session) (taken : List Token) (after : Session) : Prop where
  upcoming_eq : session.upcoming = taken ++ after.upcoming
  position_eq : after.cursor.position = session.cursor.position + taken.length

namespace Session

variable {session middle after : Session} {token : Token} {first second others : List Token}

theorem takes_nil (session : Session) : session.Takes [] session :=
  ⟨rfl, rfl⟩

theorem takes_peek (session : Session) : session.Takes [] session.peek :=
  ⟨rfl, rfl⟩

/-- Reading a token takes it in. -/
theorem takes_advance (hnext : session.upcoming = token :: others) :
    session.Takes [token] session.advance where
  upcoming_eq := by rw [hnext, upcoming_advance hnext, List.singleton_append]
  position_eq := rfl

/-- Noting down a rule takes in nothing. -/
theorem Takes.of_enter {rule : Rule} (htakes : (session.enter rule).Takes first after) :
    session.Takes first after :=
  ⟨htakes.1, htakes.2⟩

/-- Opening a negation takes in nothing. -/
theorem Takes.of_deepen (htakes : session.deepen.Takes first after) :
    session.Takes first after :=
  ⟨htakes.1, htakes.2⟩

/-- Closing a negation takes in nothing. -/
theorem Takes.release (htakes : session.Takes first after) : session.Takes first after.release :=
  ⟨htakes.1, htakes.2⟩

/-- What is taken in at two stretches is taken in at one. -/
theorem Takes.trans (hfirst : session.Takes first middle) (hsecond : middle.Takes second after) :
    session.Takes (first ++ second) after where
  upcoming_eq := by rw [hfirst.upcoming_eq, hsecond.upcoming_eq, List.append_assoc]
  position_eq := by
    rw [hsecond.position_eq, hfirst.position_eq, List.length_append, Nat.add_assoc]

/-- Reading a token and then more takes in the token and what is taken in later. -/
theorem Takes.cons (hnext : session.upcoming = token :: others)
    (hafter : session.advance.Takes second after) : session.Takes (token :: second) after :=
  (takes_advance hnext).trans hafter

end Session

/-! ## Tokens that end a chain -/

/-- A chain ends in front of the token, after what was read of the chain so far. -/
def Level.EndsAt (read : List Token) (token : Token) : Level → Prop
  | sum => token.kind = .endOfInput
  | product => token.kind = .endOfInput ∨ IsBinarySign read token

/-- Behind the tokens in front, a chain takes in all the tokens that follow. -/
def Level.Passes (level : Level) (front taken : List Token) : Prop :=
  ∀ i, ∀ token ∈ taken[i]?, ¬ level.EndsAt (front ++ taken.take i) token

section Passes

variable {level : Level} {front first second : List Token} {token : Token}

theorem Level.passes_nil : level.Passes front [] := by
  simp [Passes]

theorem Level.passes_singleton :
    level.Passes front [token] ↔ ¬ level.EndsAt front token := by
  constructor
  · intro hpasses
    simpa using hpasses 0 token rfl
  · intro hends i found hfound
    rcases List.getElem?_eq_some_iff.mp hfound with ⟨hi, rfl⟩
    rw [List.length_singleton, Nat.lt_one_iff] at hi
    subst hi
    simpa using hends

/-- Two stretches are taken in if the second is taken in behind the first. -/
theorem Level.Passes.append (hfirst : level.Passes front first)
    (hsecond : level.Passes (front ++ first) second) : level.Passes front (first ++ second) := by
  intro i token htoken
  by_cases hi : i < first.length
  · rw [Option.mem_def, List.getElem?_append_left hi] at htoken
    rw [List.take_append_of_le_length (Nat.le_of_lt hi)]
    exact hfirst i token htoken
  · have hle : first.length ≤ i := Nat.le_of_not_lt hi
    rw [Option.mem_def, List.getElem?_append_right hle] at htoken
    rw [List.take_append, List.take_of_length_le hle, ← List.append_assoc]
    exact hsecond _ token htoken

/-- A token is taken in with those behind it if the chain does not end in front of it. -/
theorem Level.Passes.cons {taken : List Token} (hends : ¬ level.EndsAt front token)
    (htaken : level.Passes (front ++ [token]) taken) : level.Passes front (token :: taken) :=
  (Level.passes_singleton.mpr hends).append htaken

/-- What ends a sum ends its products as well. -/
theorem Level.EndsAt.product (hends : level.EndsAt front token) : EndsAt front token product := by
  cases level with
  | sum => exact .inl hends
  | product => exact hends

/-- What a product takes in, the sum around it takes in as well. -/
theorem Level.Passes.of_product (hpasses : Passes product front first) :
    level.Passes front first :=
  fun i token htoken hends => hpasses i token htoken hends.product

/-- An operator that goes on with a chain does not end it. -/
theorem Level.not_endsAt_operator {op : Operator}
    (hfollow : level.follow token.kind = .operator op) : ¬ level.EndsAt front token := by
  cases level <;> cases hkind : token.kind <;> rw [hkind] at hfollow <;> cases hfollow <;>
    simp [EndsAt, IsBinarySign, hkind]

/-- A token that stops a chain after a number ends it. -/
theorem Level.endsAt_stop (hfollow : level.follow token.kind = .stop)
    (hnumber : FollowsNumber front) : level.EndsAt front token := by
  cases level <;> cases hkind : token.kind <;> rw [hkind] at hfollow <;> cases hfollow <;>
    simp [EndsAt, IsBinarySign, hkind, hnumber]

/-- An operator that goes on with a chain is followed by an operand. -/
theorem Level.awaitsOperand_of_follow {kind : Token.Kind} {op : Operator}
    (hfollow : level.follow kind = .operator op) : kind.AwaitsOperand := by
  cases level <;> cases kind <;> simp [follow, Token.Kind.AwaitsOperand] at hfollow ⊢

/-- In the place of an operand, a token other than the marker and a plus ends nothing. -/
theorem Level.not_endsAt_of_expectsOperand (hexpects : ExpectsOperand front)
    (hend : token.kind ≠ .endOfInput) (hplus : token.kind ≠ .plus) :
    ¬ level.EndsAt front token := by
  intro hends
  rcases hends.product with hkind | hkind | ⟨-, hnumber⟩
  · exact hend hkind
  · exact hplus hkind
  · exact hnumber.not_expectsOperand hexpects

/-- What ends in a number still does so behind other tokens. -/
theorem FollowsNumber.append {read others : List Token} (hnumber : FollowsNumber others) :
    FollowsNumber (read ++ others) := by
  rcases hnumber with ⟨token, htoken, hkind⟩
  refine ⟨token, ?_, hkind⟩
  rw [List.getLast?_append, Option.mem_def.mp htoken]
  rfl

end Passes

/-! ## What phrases take in -/

namespace Phrase

/-- What is known of the tokens that a phrase takes in: the last is a number, and none ends
the chain that the phrase is, or is a part of. -/
def Spans : Phrase → List Token → Prop
  | chain level, taken =>
      FollowsNumber taken ∧ ∀ front, ExpectsOperand front → level.Passes front taken
  | rest level _, taken =>
      ∀ front, FollowsNumber front → FollowsNumber (front ++ taken) ∧ level.Passes front taken
  | unary, taken =>
      FollowsNumber taken ∧ ∀ front, ExpectsOperand front → Level.product.Passes front taken

/-- An operand ends in a number, and its chain takes in all of it. -/
theorem Spans.of_operand {level : Level} {taken : List Token}
    (hspans : (operand level).Spans taken) :
    FollowsNumber taken ∧ ∀ front, ExpectsOperand front → level.Passes front taken := by
  cases level with
  | sum => exact ⟨hspans.1, fun front hfront => (hspans.2 front hfront).of_product⟩
  | product => exact hspans

/-- A phrase takes in tokens up to the first that ends it. -/
theorem Reads.exists_takes {phrase : Phrase} {session after : Session} {value : Int64}
    (hreads : Reads phrase session value after) :
    ∃ taken, session.Takes taken after ∧ phrase.Spans taken := by
  induction hreads with
  | @chain level session middle after first value _ _ ihOperand ihRest =>
      rcases ihOperand with ⟨taken, htaken, hoperand⟩
      rcases ihRest with ⟨others, hothers, hrest⟩
      rcases hoperand.of_operand with ⟨hnumber, hpasses⟩
      refine ⟨taken ++ others, htaken.of_enter.trans hothers,
        (hrest taken hnumber).1, fun front hfront => ?_⟩
      exact (hpasses front hfront).append (hrest (front ++ taken) hnumber.append).2
  | @more level session middle after token others op lhs rhs combined value hnext hfollow _ _ _
      ihOperand ihRest =>
      rcases ihOperand with ⟨taken, htaken, hoperand⟩
      rcases ihRest with ⟨later, hlater, hrest⟩
      rcases hoperand.of_operand with ⟨hnumber, hpasses⟩
      refine ⟨token :: (taken ++ later), .cons hnext (htaken.trans hlater), fun front _ => ?_⟩
      have hexpects : ExpectsOperand (front ++ [token]) :=
        expectsOperand_concat.mpr (Level.awaitsOperand_of_follow hfollow)
      have hlast : FollowsNumber (front ++ [token] ++ taken) := hnumber.append
      rcases hrest (front ++ [token] ++ taken) hlast with ⟨hend, hothers⟩
      refine ⟨by simpa using hend, .cons (Level.not_endsAt_operator hfollow) ?_⟩
      exact (hpasses _ hexpects).append hothers
  | @stop level session token others value hnext hfollow =>
      refine ⟨[], session.takes_peek, fun front hnumber => ⟨?_, Level.passes_nil⟩⟩
      rwa [List.append_nil]
  | @number session token others value hnext hkind _ =>
      have hentered : (session.enter .unary).upcoming = token :: others := hnext
      refine ⟨[token], (Session.takes_advance hentered).of_enter,
        @followsNumber_concat [] token |>.mpr hkind, fun front hfront => ?_⟩
      rw [Level.passes_singleton]
      exact Level.not_endsAt_of_expectsOperand hfront (by simp [hkind]) (by simp [hkind])
  | @negation session middle token others value negated hnext hkind _ _ _ ih =>
      rcases ih with ⟨taken, htaken, hnumber, hpasses⟩
      have hentered : (session.enter .unary).upcoming = token :: others := hnext
      refine ⟨token :: taken, (Session.Takes.cons hentered htaken.of_deepen).of_enter.release,
        @FollowsNumber.append [token] taken hnumber, fun front hfront => .cons ?_ ?_⟩
      · exact Level.not_endsAt_of_expectsOperand hfront (by simp [hkind]) (by simp [hkind])
      · exact hpasses _ (expectsOperand_concat.mpr (by simp [Token.Kind.AwaitsOperand, hkind]))

/-- Only the token of a number is still there to be pushed back. -/
theorem Reads.canUnread {phrase : Phrase} {session after : Session} {value : Int64}
    (hreads : Reads phrase session value after) :
    match phrase with
    | .unary =>
        after.cursor.canUnread = true ↔
          ∃ token ∈ session.upcoming.head?, token.kind = .number
    | _ => after.cursor.canUnread = false := by
  induction hreads with
  | chain _ _ _ ihRest => exact ihRest
  | more _ _ _ _ _ _ ihRest => exact ihRest
  | stop => rfl
  | number hnext hkind => simp [hnext, hkind]
  | negation hnext hkind _ _ _ ih => simp [hnext, hkind, show _ = false from ih]

end Phrase

/-! ## The least place at which a chain ends -/

/-- The token at a place ends a sum: it is a closing marker. -/
def EndsSum (tokens : Array Token) (i : Nat) : Prop :=
  ∃ token ∈ tokens[i]?, token.kind = .endOfInput

/-- The token at a place ends a product with the given start: it is a closing marker, a plus,
or a minus behind the start and right after a number. -/
def EndsProduct (tokens : Array Token) (start i : Nat) : Prop :=
  ∃ token ∈ tokens[i]?, token.kind = .endOfInput ∨ token.kind = .plus ∨
    token.kind = .minus ∧ start < i ∧ ∃ number ∈ tokens[i - 1]?, number.kind = .number

/-- The places behind a start at which a sum ends. -/
def sumEnds (tokens : Array Token) (start : Nat) : Set Nat :=
  {i | start ≤ i ∧ EndsSum tokens i}

/-- The places behind a start at which a product with that start ends. -/
def productEnds (tokens : Array Token) (start : Nat) : Set Nat :=
  {i | start ≤ i ∧ EndsProduct tokens start i}

/-- The places behind a start at which a chain of the level with that start ends. -/
def Level.ends : Level → Array Token → Nat → Set Nat
  | sum => sumEnds
  | product => productEnds

section Ends

variable {level : Level} {session after : Session} {taken : List Token} {token : Token}

/-- The tokens in front of an index end in a number if one stands right in front of it. -/
theorem followsNumber_take_iff {tokens : List Token} {i : Nat} (hi : i ≤ tokens.length) :
    FollowsNumber (tokens.take i) ↔ 0 < i ∧ ∃ number ∈ tokens[i - 1]?, number.kind = .number := by
  cases i with
  | zero => simp [FollowsNumber]
  | succ i =>
      have hlast : (tokens.take (i + 1)).getLast? = tokens[i]? := by
        rw [List.getLast?_take, if_neg (Nat.succ_ne_zero i), Nat.add_sub_cancel,
          List.getElem?_eq_getElem hi]
        rfl
      rw [FollowsNumber, hlast]
      exact (and_iff_right (Nat.succ_pos i)).symm

theorem Session.getElem?_tokens (session : Session) (i : Nat) :
    session.cursor.tokens[session.cursor.position + i]? = session.upcoming[i]? := by
  simp [upcoming]

/-- A place behind the cursor ends a chain that starts at the cursor exactly if its token ends
the chain after what is in between. -/
theorem mem_ends_iff {i : Nat} :
    session.cursor.position + i ∈ level.ends session.cursor.tokens session.cursor.position ↔
      ∃ token ∈ session.upcoming[i]?, level.EndsAt (session.upcoming.take i) token := by
  cases level with
  | sum =>
      show _ ∧ EndsSum _ _ ↔ _
      rw [EndsSum, session.getElem?_tokens, and_iff_right (Nat.le_add_right _ _)]
      rfl
  | product =>
      show _ ∧ EndsProduct _ _ _ ↔ _
      rw [EndsProduct, session.getElem?_tokens, and_iff_right (Nat.le_add_right _ _)]
      apply exists_congr
      intro token
      apply and_congr_right
      intro htoken
      have hi := (List.getElem?_eq_some_iff.mp htoken).1
      rw [Level.EndsAt, IsBinarySign, followsNumber_take_iff (Nat.le_of_lt hi),
        Nat.lt_add_right_iff_pos]
      refine or_congr_right (or_congr_right (and_congr_right fun _ => ?_))
      apply and_congr_right
      intro hpos
      rw [Nat.add_sub_assoc hpos, session.getElem?_tokens]

/-- A chain ends in front of the first token that ends it. -/
theorem Phrase.Reads.isLeast_ends {value : Int64}
    (hreads : Reads (.chain level) session value after) :
    IsLeast (level.ends session.cursor.tokens session.cursor.position)
      after.cursor.position := by
  rcases hreads.exists_takes with ⟨taken, htakes, hnumber, hpasses⟩
  rcases hreads.stops with ⟨token, others, hupcoming, hstop⟩
  rw [htakes.position_eq]
  constructor
  · rw [mem_ends_iff, htakes.upcoming_eq, hupcoming]
    exact ⟨token, by simp, by simpa using Level.endsAt_stop hstop hnumber⟩
  · intro i hi
    have hle : session.cursor.position ≤ i := by
      cases level <;> exact hi.1
    rcases Nat.exists_eq_add_of_le hle with ⟨k, rfl⟩
    rw [mem_ends_iff, htakes.upcoming_eq] at hi
    rcases hi with ⟨ending, hending, hends⟩
    by_contra hlt
    have hk : k < taken.length := by omega
    rw [Option.mem_def, List.getElem?_append_left hk] at hending
    rw [List.take_append_of_le_length (Nat.le_of_lt hk)] at hends
    exact hpasses [] expectsOperand_nil k ending hending hends

end Ends

end Calculator
