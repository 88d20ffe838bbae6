import Calculator.Failure
import Calculator.Token

/-!
# Cursors

A cursor stands between two tokens of a sequence.  It moves over one token at a
time, takes back its latest move once, and counts how many negations are open,
up to a nesting limit.

Taking back a move needs a move to take back.  Whether there is one is part of
the cursor, as the answer to the next request depends on it.

Main results:

- Theorem `Cursor.unread_next`: a move can be taken back, which restores the
  position.
- Theorems `Cursor.remaining_next` and `Cursor.remaining_unread_le`: a move uses up
  one token, and taking it back frees at most one.
-/

namespace Calculator

/-- A place in a token sequence. -/
structure Cursor where
  /-- The sequence, which never changes. -/
  tokens : Array Token
  /-- The greatest number of negations open at once; without one, any number. -/
  nestingLimit : Option Nat
  /-- The number of tokens in front of the cursor. -/
  position : Nat
  /-- A move was made since the last one was taken back. -/
  canUnread : Bool
  /-- The number of negations open. -/
  depth : Nat
deriving DecidableEq

namespace Cursor

/-- The usual limit on negations open at once. -/
def defaultNestingLimit : Nat :=
  256

/-- The cursor in front of a sequence under a given nesting limit. -/
def ofTokensWithin (nestingLimit : Option Nat) (tokens : List Token) : Cursor where
  tokens := tokens.toArray
  nestingLimit := nestingLimit
  position := 0
  canUnread := false
  depth := 0

/-- The cursor in front of a sequence. -/
def ofTokens (tokens : List Token) : Cursor :=
  ofTokensWithin (some defaultNestingLimit) tokens

/-- The number of tokens behind the cursor. -/
def remaining (cursor : Cursor) : Nat :=
  cursor.tokens.size - cursor.position

/-! ## Moving -/

/-- Move over the token behind the cursor, if there is one. -/
def next? (cursor : Cursor) : Option (Token × Cursor) :=
  match cursor.tokens[cursor.position]? with
  | some token => some (token, { cursor with position := cursor.position + 1, canUnread := true })
  | none => none

/-- Take back the latest move, unless it is taken back already. -/
def unread? (cursor : Cursor) : Option Cursor :=
  if cursor.canUnread then
    some { cursor with position := cursor.position - 1, canUnread := false }
  else none

/-- A move uses up one token. -/
theorem remaining_next {cursor after : Cursor} {token : Token}
    (hmoved : cursor.next? = some (token, after)) :
    after.remaining + 1 = cursor.remaining := by
  unfold next? at hmoved
  split at hmoved
  next hfound =>
    have hinside := (Array.getElem?_eq_some_iff.mp hfound).1
    cases hmoved
    simp only [remaining]
    omega
  next => cases hmoved

/-- Taking back a move frees at most one token. -/
theorem remaining_unread_le {cursor before : Cursor} (htaken : cursor.unread? = some before) :
    before.remaining ≤ cursor.remaining + 1 := by
  unfold unread? at htaken
  split at htaken
  next =>
    cases htaken
    simp only [remaining]
    omega
  next => cases htaken

/-- A move just made can be taken back. -/
theorem unread_next {cursor after : Cursor} {token : Token}
    (hmoved : cursor.next? = some (token, after)) :
    after.unread? = some { cursor with canUnread := false } := by
  unfold next? at hmoved
  split at hmoved
  next => cases hmoved; rfl
  next => cases hmoved

/-! ## Nesting -/

/-- Open a negation, unless as many as allowed are open. -/
def descend? (cursor : Cursor) : Option Cursor :=
  if cursor.nestingLimit.all (cursor.depth < ·) then
    some { cursor with depth := cursor.depth + 1 }
  else none

/-- Close a negation.  Closing one when none is open changes nothing. -/
def ascend (cursor : Cursor) : Cursor :=
  { cursor with depth := cursor.depth - 1 }

/-- Opening a negation uses up no token. -/
theorem remaining_descend {cursor after : Cursor} (hopened : cursor.descend? = some after) :
    after.remaining = cursor.remaining := by
  unfold descend? at hopened
  split at hopened
  next => cases hopened; rfl
  next => cases hopened

/-- Closing a negation uses up no token. -/
@[simp]
theorem remaining_ascend (cursor : Cursor) : cursor.ascend.remaining = cursor.remaining :=
  rfl

end Cursor

end Calculator
