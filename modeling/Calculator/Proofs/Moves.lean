import Calculator.Cursor
import Mathlib.Data.List.Induction

/-!
# Moves of a cursor

A cursor changes in four ways: it reads a token, pushes one back, opens a negation or closes
one.  The moves made on a fresh cursor say all about the cursor that they lead to.  Its
position counts the tokens that were read and not pushed back, and it can push one back
exactly if a token was read since that was last done.

Main results:

- Theorem `Cursor.sound_of_replay`: no move leads a cursor out of its tokens or past its
  nesting limit.
- Theorem `Cursor.canUnread_iff_of_replay`: a token can be pushed back exactly if one was
  read since the last was pushed back.
- Theorem `Cursor.held_eq_take_of_replay`: the tokens read and not pushed back are those in
  front of the cursor.
-/

namespace Calculator

/-- The ways in which a cursor changes. -/
inductive Move where
  /-- A token is read. -/
  | next (token : Token)
  /-- The token read last is pushed back. -/
  | unread
  /-- A negation is opened. -/
  | descend
  /-- A negation is closed. -/
  | ascend
deriving DecidableEq

/-- A token was read, and none was pushed back since. -/
def ReadSince (moves : List Move) : Prop :=
  ∃ before token after, moves = before ++ .next token :: after ∧ .unread ∉ after

/-- The tokens held after one more move: a token that is read is added to them, and a token
that is pushed back is the last of them. -/
def Move.hold (tokens : List Token) : Move → List Token
  | next token => tokens ++ [token]
  | unread => tokens.dropLast
  | descend => tokens
  | ascend => tokens

/-- The tokens read and not pushed back. -/
def held (moves : List Move) : List Token :=
  moves.foldl Move.hold []

section History

variable {moves : List Move} {move : Move} {token : Token}

theorem not_readSince_nil : ¬ ReadSince [] := by
  simp [ReadSince]

theorem readSince_concat_next : ReadSince (moves ++ [.next token]) :=
  ⟨moves, token, [], rfl, by simp⟩

/-- After a token is pushed back there is none. -/
theorem not_readSince_concat_unread : ¬ ReadSince (moves ++ [.unread]) := by
  intro h
  rcases h with ⟨before, token, after, heq, hafter⟩
  rcases List.eq_nil_or_concat after with rfl | ⟨init, last, rfl⟩
  · have hlast := List.append_inj_right' heq rfl
    cases hlast
  · rw [List.concat_eq_append, ← List.cons_append, ← List.append_assoc] at heq
    have hlast := List.append_inj_right' heq rfl
    cases hlast
    exact hafter (by simp)

/-- Opening and closing a negation make no difference. -/
theorem readSince_concat_depth (hmove : move = .descend ∨ move = .ascend) :
    ReadSince (moves ++ [move]) ↔ ReadSince moves := by
  constructor
  · intro h
    rcases h with ⟨before, token, after, heq, hafter⟩
    rcases List.eq_nil_or_concat after with rfl | ⟨init, last, rfl⟩
    · have hlast := List.append_inj_right' heq rfl
      cases hlast
      rcases hmove with hmove | hmove <;> cases hmove
    · rw [List.concat_eq_append, ← List.cons_append, ← List.append_assoc] at heq
      exact ⟨before, token, init, List.append_inj_left' heq rfl,
        fun hmem => hafter (by simp [hmem])⟩
  · intro h
    rcases h with ⟨before, token, after, rfl, hafter⟩
    refine ⟨before, token, after ++ [move], by simp, ?_⟩
    intro hmem
    rcases List.mem_append.mp hmem with hmem | hmem
    · exact hafter hmem
    · rw [← List.mem_singleton.mp hmem] at hmove
      rcases hmove with hmove | hmove <;> cases hmove

/-- The last move decides what becomes of the tokens held so far. -/
theorem held_concat : held (moves ++ [move]) = move.hold (held moves) := by
  rw [held, List.foldl_append]
  rfl

end History

namespace Cursor

/-! ## Moving -/

/-- Make a move, if the cursor allows it. -/
def move? (cursor : Cursor) : Move → Option Cursor
  | .next token =>
      match cursor.next? with
      | some (found, after) => if found = token then some after else none
      | none => none
  | .unread => cursor.unread?
  | .descend => cursor.descend?
  | .ascend => some cursor.ascend

/-- Make moves in order, if the cursor allows each of them. -/
def replay? (cursor : Cursor) (moves : List Move) : Option Cursor :=
  moves.foldlM move? cursor

section Replay

variable {cursor middle after : Cursor} {first second : List Move} {move : Move}

@[simp]
theorem replay?_nil (cursor : Cursor) : cursor.replay? [] = some cursor :=
  rfl

@[simp]
theorem replay?_singleton (cursor : Cursor) (move : Move) :
    cursor.replay? [move] = cursor.move? move := by
  simp [replay?]

/-- Moves in two portions are the same moves at once. -/
theorem replay?_append (cursor : Cursor) (first second : List Move) :
    cursor.replay? (first ++ second) =
      (cursor.replay? first).bind fun middle => middle.replay? second := by
  rw [replay?, List.foldlM_append]
  rfl

/-- Moves can be made in two stretches, the second from where the first leads. -/
theorem replay?_append_of_eq_some (hfirst : cursor.replay? first = some middle) :
    cursor.replay? (first ++ second) = middle.replay? second := by
  rw [replay?_append, hfirst, Option.bind_some]

/-- If moves can be made, then the first of them lead to some cursor. -/
theorem exists_replay?_of_prefix {moves : List Move} (hreplay : cursor.replay? moves = some after)
    (hfirst : first <+: moves) : ∃ middle, cursor.replay? first = some middle := by
  rcases hfirst with ⟨second, rfl⟩
  rw [replay?_append, Option.bind_eq_some_iff] at hreplay
  rcases hreplay with ⟨middle, hmiddle, -⟩
  exact ⟨middle, hmiddle⟩

/-- The last move is made from where those in front of it lead. -/
theorem replay?_concat_eq_some_iff {moves : List Move} :
    cursor.replay? (moves ++ [move]) = some after ↔
      ∃ middle, cursor.replay? moves = some middle ∧ middle.move? move = some after := by
  simp only [replay?_append, replay?_singleton, Option.bind_eq_some_iff]

end Replay

/-! ## Single moves -/

section Moves

variable {cursor after : Cursor} {token : Token}

/-- A token can be read if it stands at the position of the cursor. -/
theorem move?_next_eq_some_iff :
    cursor.move? (.next token) = some after ↔
      cursor.tokens[cursor.position]? = some token ∧
        after = { cursor with position := cursor.position + 1, canUnread := true } := by
  unfold move? next?
  cases cursor.tokens[cursor.position]? with
  | none => simp
  | some found =>
      by_cases hfound : found = token
      · simp [hfound, eq_comm]
      · simp [hfound]

/-- A token can be pushed back if one was read since the last time. -/
theorem move?_unread_eq_some_iff :
    cursor.move? .unread = some after ↔
      cursor.canUnread = true ∧
        after = { cursor with position := cursor.position - 1, canUnread := false } := by
  unfold move? unread?
  cases cursor.canUnread <;> simp [eq_comm]

/-- A negation can be opened as long as the limit is not reached. -/
theorem move?_descend_eq_some_iff :
    cursor.move? .descend = some after ↔
      cursor.nestingLimit.all (cursor.depth < ·) = true ∧
        after = { cursor with depth := cursor.depth + 1 } := by
  unfold move? descend?
  by_cases hroom : cursor.nestingLimit.all (cursor.depth < ·) = true
  · rw [if_pos hroom, and_iff_right hroom]
    simp [eq_comm]
  · rw [if_neg hroom]
    exact iff_of_false nofun fun h => hroom h.1

/-- A negation can always be closed, and with none open the depth stays zero. -/
theorem move?_ascend_eq_some_iff :
    cursor.move? .ascend = some after ↔ after = { cursor with depth := cursor.depth - 1 } := by
  simp [move?, ascend, eq_comm]

end Moves

/-! ## What holds between any two moves -/

/-- A cursor on the given tokens is in the midst of them or at one of their ends, no more
negations are open than allowed, and it stands behind the token that it can push back. -/
structure Sound (nestingLimit : Option Nat) (tokens : List Token) (cursor : Cursor) : Prop where
  tokens_eq : cursor.tokens = tokens.toArray
  nestingLimit_eq : cursor.nestingLimit = nestingLimit
  position_le : cursor.position ≤ tokens.length
  depth_le : ∀ limit ∈ nestingLimit, cursor.depth ≤ limit
  one_le_position : cursor.canUnread = true → 1 ≤ cursor.position

section Sound

variable {nestingLimit : Option Nat} {tokens : List Token} {cursor after : Cursor} {move : Move}
  {moves : List Move}

/-- A fresh cursor is sound. -/
theorem sound_ofTokensWithin (nestingLimit : Option Nat) (tokens : List Token) :
    (ofTokensWithin nestingLimit tokens).Sound nestingLimit tokens where
  tokens_eq := rfl
  nestingLimit_eq := rfl
  position_le := Nat.zero_le _
  depth_le := fun _ _ => Nat.zero_le _
  one_le_position := nofun

/-- The tokens in front of a cursor and those behind it are all of them. -/
theorem Sound.position_add_remaining (hsound : cursor.Sound nestingLimit tokens) :
    cursor.position + cursor.remaining = tokens.length := by
  rw [remaining, hsound.tokens_eq, List.size_toArray]
  exact Nat.add_sub_cancel' hsound.position_le

/-- Pushing a token back moves a cursor by exactly one token. -/
theorem Sound.position_of_unread? (hsound : cursor.Sound nestingLimit tokens)
    (hunread : cursor.unread? = some after) : after.position + 1 = cursor.position := by
  rcases move?_unread_eq_some_iff.mp hunread with ⟨hcan, rfl⟩
  exact Nat.sub_add_cancel (hsound.one_le_position hcan)

/-- A move keeps a cursor sound. -/
theorem Sound.of_move? (hsound : cursor.Sound nestingLimit tokens)
    (hmove : cursor.move? move = some after) : after.Sound nestingLimit tokens := by
  rcases hsound with ⟨htokens, hlimit, hposition, hdepth, hpos⟩
  cases move with
  | next token =>
      rcases move?_next_eq_some_iff.mp hmove with ⟨hnext, rfl⟩
      rw [htokens, List.getElem?_toArray] at hnext
      have hlt : cursor.position < tokens.length := (List.getElem?_eq_some_iff.mp hnext).1
      exact ⟨htokens, hlimit, hlt, hdepth, fun _ => Nat.le_add_left 1 _⟩
  | unread =>
      rcases move?_unread_eq_some_iff.mp hmove with ⟨-, rfl⟩
      exact ⟨htokens, hlimit, Nat.le_trans (Nat.sub_le _ 1) hposition, hdepth, nofun⟩
  | descend =>
      rcases move?_descend_eq_some_iff.mp hmove with ⟨hroom, rfl⟩
      refine ⟨htokens, hlimit, hposition, ?_, hpos⟩
      rintro limit rfl
      rw [hlimit] at hroom
      exact Nat.succ_le_of_lt (by simpa using hroom)
  | ascend =>
      obtain rfl := move?_ascend_eq_some_iff.mp hmove
      exact ⟨htokens, hlimit, hposition,
        fun limit hmem => Nat.le_trans (Nat.sub_le _ 1) (hdepth limit hmem), hpos⟩

/-- All moves keep a cursor sound. -/
theorem sound_of_replay
    (hreplay : (ofTokensWithin nestingLimit tokens).replay? moves = some after) :
    after.Sound nestingLimit tokens := by
  induction moves using List.reverseRecOn generalizing after with
  | nil =>
      cases hreplay
      exact sound_ofTokensWithin nestingLimit tokens
  | append_singleton moves move ih =>
      rcases replay?_concat_eq_some_iff.mp hreplay with ⟨middle, hmiddle, hmove⟩
      exact (ih hmiddle).of_move? hmove

/-- A token can be pushed back exactly if one was read since the last was pushed back. -/
theorem canUnread_iff_of_replay
    (hreplay : (ofTokensWithin nestingLimit tokens).replay? moves = some after) :
    after.canUnread = true ↔ ReadSince moves := by
  induction moves using List.reverseRecOn generalizing after with
  | nil =>
      cases hreplay
      exact iff_of_false nofun not_readSince_nil
  | append_singleton moves move ih =>
      rcases replay?_concat_eq_some_iff.mp hreplay with ⟨middle, hmiddle, hmove⟩
      have hsince := ih hmiddle
      cases move with
      | next token =>
          rcases move?_next_eq_some_iff.mp hmove with ⟨-, rfl⟩
          exact iff_of_true rfl readSince_concat_next
      | unread =>
          rcases move?_unread_eq_some_iff.mp hmove with ⟨-, rfl⟩
          exact iff_of_false nofun not_readSince_concat_unread
      | descend =>
          rcases move?_descend_eq_some_iff.mp hmove with ⟨-, rfl⟩
          rw [readSince_concat_depth (.inl rfl)]
          exact hsince
      | ascend =>
          obtain rfl := move?_ascend_eq_some_iff.mp hmove
          rw [readSince_concat_depth (.inr rfl)]
          exact hsince

/-- The tokens read and not pushed back are those in front of the cursor. -/
theorem held_eq_take_of_replay
    (hreplay : (ofTokensWithin nestingLimit tokens).replay? moves = some after) :
    held moves = tokens.take after.position := by
  induction moves using List.reverseRecOn generalizing after with
  | nil =>
      cases hreplay
      rfl
  | append_singleton moves move ih =>
      rcases replay?_concat_eq_some_iff.mp hreplay with ⟨middle, hmiddle, hmove⟩
      have hsound := sound_of_replay hmiddle
      rw [held_concat, ih hmiddle]
      cases move with
      | next token =>
          rcases move?_next_eq_some_iff.mp hmove with ⟨hnext, rfl⟩
          rw [hsound.tokens_eq, List.getElem?_toArray] at hnext
          rw [Move.hold, List.take_add_one, hnext]
          rfl
      | unread =>
          rcases move?_unread_eq_some_iff.mp hmove with ⟨-, rfl⟩
          have hlength : (tokens.take middle.position).length = middle.position := by
            rw [List.length_take, Nat.min_eq_left hsound.position_le]
          rw [Move.hold, List.dropLast_eq_take, hlength, List.take_take,
            Nat.min_eq_left (Nat.sub_le _ 1)]
      | descend =>
          rcases move?_descend_eq_some_iff.mp hmove with ⟨-, rfl⟩
          rfl
      | ascend =>
          obtain rfl := move?_ascend_eq_some_iff.mp hmove
          rfl

end Sound

end Cursor

end Calculator
