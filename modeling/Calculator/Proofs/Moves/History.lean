import Calculator.Proofs.Moves.Descent
import Calculator.Script

/-!
# Histories of scripts

Whoever drives a cursor by hand makes moves of their own, and further moves by reading with
the rules of the grammar.  The history of the commands given so far lists all of these moves
in their order.  A command that fails leaves its moves in the history, and the next command
goes on from there.

Going back to a copy that was kept is not a move, so histories are taken of commands
without it.

Main results:

- Theorem `Script.replay_history`: the history leads to the cursor on the bench.
- Theorem `Script.cursor_obeys_history`: the cursor stays within its bounds all along, and its
  history says where it stands and whether a token can be pushed back.
-/

namespace Calculator
namespace Script

/-- The bench at the beginning of a script, with a fresh cursor in front of the tokens. -/
def Bench.opening (tokens : List Token) : Bench :=
  .ofCursor (.ofTokens tokens)

/-- The bench after commands, whatever came of each of them. -/
def Bench.after (bench : Bench) (commands : List Command) : Bench :=
  commands.foldl (fun bench command => (command.run bench).2) bench

/-- The moves made in carrying out a command. -/
def Command.moves (command : Command) (bench : Bench) : List Move :=
  match command with
  | next => Parser.nextMoves bench.session
  | unread => Parser.unreadMoves bench.session
  | descend => Parser.descendMoves bench.session
  | ascend => [.ascend]
  | read rule => rule.moves bench.session
  | save => []
  | restore => []

/-- The moves made in carrying out commands in order. -/
def history : List Command → Bench → List Move
  | [], _ => []
  | command :: rest, bench => command.moves bench ++ history rest (command.run bench).2

section Replay

variable {bench : Bench} {command : Command} {commands : List Command}

theorem Bench.session_step {α : Type} (bench : Bench) (parser : Parser α) (reply : α → Reply) :
    (bench.step parser reply).2.session = parser.final bench.session := by
  rw [Bench.step, Parser.final]
  cases parser bench.session <;> rfl

/-- The moves of a step lead to the cursor that it leaves on the bench. -/
theorem Bench.replay_step {α : Type} {parser : Parser α} {moves : List Move}
    (reply : α → Reply) (hmakes : parser.Makes bench.session moves) :
    bench.session.cursor.replay? moves = some (bench.step parser reply).2.session.cursor := by
  rw [session_step]
  exact hmakes

/-- The moves of a command lead to the cursor that it leaves on the bench. -/
theorem Command.replay_moves (bench : Bench) (hcommand : command ≠ restore) :
    bench.session.cursor.replay? (command.moves bench) =
      some (command.run bench).2.session.cursor := by
  cases command with
  | next => exact Bench.replay_step _ (.next bench.session)
  | unread => exact Bench.replay_step _ (.unread bench.session)
  | descend => exact Bench.replay_step _ (.descend bench.session)
  | ascend => exact Bench.replay_step _ (.ascend bench.session)
  | read rule => exact Bench.replay_step _ (rule.makes_moves bench.session)
  | save => rfl
  | restore => exact absurd rfl hcommand

/-- The history of commands leads to the cursor that they leave on the bench. -/
theorem replay_history (bench : Bench) (hcommands : Command.restore ∉ commands) :
    bench.session.cursor.replay? (history commands bench) =
      some (bench.after commands).session.cursor := by
  induction commands generalizing bench with
  | nil => rfl
  | cons command rest ih =>
      rw [List.mem_cons, not_or] at hcommands
      rcases hcommands with ⟨hcommand, hrest⟩
      have hmoves := Command.replay_moves bench (Ne.symm hcommand)
      rw [history, Cursor.replay?_append_of_eq_some hmoves, ih _ hrest]
      rfl

end Replay

section Unread

variable {bench : Bench}

/-- The command to push back is obeyed if a token can be pushed back. -/
theorem run_unread_of_canUnread (hcan : bench.session.cursor.canUnread = true) :
    ∃ after, Command.unread.run bench = (.ok .done, after) := by
  have hunread : bench.session.cursor.unread? = some _ := if_pos hcan
  rw [Command.run, Bench.step, Parser.unread, hunread]
  exact ⟨_, rfl⟩

/-- Otherwise it is refused, and nothing changes. -/
theorem run_unread_of_not_canUnread (hcan : ¬ bench.session.cursor.canUnread = true) :
    Command.unread.run bench = (.error (.unreadRefused bench.session.cursor.position), bench) := by
  have hunread : bench.session.cursor.unread? = none := if_neg hcan
  rw [Command.run, Bench.step, Parser.unread, hunread]

end Unread

/-- Take any commands on a fresh cursor, and let the history be all the moves that were made,
also within the rules.  After each of these moves the cursor was on the same tokens and within
its bounds, so that no count fell below zero, and had in front of it just the tokens that were
read and not pushed back.  Now a token can be pushed back exactly if one was read since
that was last done, and a refusal changes nothing.  A rule is never refused this. -/
theorem cursor_obeys_history (tokens : List Token) (commands : List Command)
    (hcommands : Command.restore ∉ commands) :
    (∀ made, made <+: history commands (.opening tokens) →
      ∃ cursor, (Cursor.ofTokens tokens).replay? made = some cursor ∧
        cursor.Sound (some 256) tokens ∧
        cursor.position + cursor.remaining = tokens.length ∧
        (∀ before, cursor.unread? = some before → before.position + 1 = cursor.position) ∧
        held made = tokens.take cursor.position) ∧
    (Cursor.ofTokens tokens).replay? (history commands (.opening tokens)) =
      some ((Bench.opening tokens).after commands).session.cursor ∧
    (ReadSince (history commands (.opening tokens)) →
      ∃ after, Command.unread.run ((Bench.opening tokens).after commands) = (.ok .done, after)) ∧
    (¬ ReadSince (history commands (.opening tokens)) →
      Command.unread.run ((Bench.opening tokens).after commands) =
        (.error
          (.unreadRefused ((Bench.opening tokens).after commands).session.cursor.position),
          (Bench.opening tokens).after commands)) ∧
    ∀ rule session position after,
      Parser.ofRule rule session ≠ .error (.unreadRefused position) after := by
  have hreplay : (Cursor.ofTokens tokens).replay? (history commands (.opening tokens)) =
      some ((Bench.opening tokens).after commands).session.cursor :=
    replay_history (.opening tokens) hcommands
  have hcan := Cursor.canUnread_iff_of_replay hreplay
  refine ⟨?_, hreplay, ?_, ?_, fun _ _ _ _ => Parser.ofRule_ne_unreadRefused⟩
  · intro made hmade
    rcases Cursor.exists_replay?_of_prefix hreplay hmade with ⟨cursor, hcursor⟩
    have hsound := Cursor.sound_of_replay hcursor
    exact ⟨cursor, hcursor, hsound, hsound.position_add_remaining,
      fun _ => hsound.position_of_unread?, Cursor.held_eq_take_of_replay hcursor⟩
  · intro hsince
    exact run_unread_of_canUnread (hcan.mpr hsince)
  · intro hsince
    exact run_unread_of_not_canUnread (mt hcan.mp hsince)

/-- The marker that a rule reads can be pushed back by hand, once; a failed attempt to read on
behind it does not make up for it. -/
theorem cursor_obeys_history_at_marker :
    Command.restore ∉ [Command.read .expression, .next, .unread, .unread] ∧
      history [.read .expression, .next] (.opening [⟨.endOfInput, ""⟩]) =
        [.next ⟨.endOfInput, ""⟩] ∧
      (∃ after, Command.unread.run
        ((Bench.opening [⟨.endOfInput, ""⟩]).after [.read .expression, .next]) =
          (.ok .done, after)) ∧
      Command.unread.run
        ((Bench.opening [⟨.endOfInput, ""⟩]).after
          [.read .expression, .next, .unread, .unread]) =
        (.error (.unreadRefused 0),
          (Bench.opening [⟨.endOfInput, ""⟩]).after
            [.read .expression, .next, .unread, .unread]) := by
  have hcommands : Command.restore ∉ [Command.read .expression, .next, .unread, .unread] := by
    decide
  have hhistory : history [.read .expression, .next] (.opening [⟨.endOfInput, ""⟩]) =
      [.next ⟨.endOfInput, ""⟩] := rfl
  have hhistory' :
      history [.read .expression, .next, .unread, .unread] (.opening [⟨.endOfInput, ""⟩]) =
        [.next ⟨.endOfInput, ""⟩, .unread] := rfl
  rcases cursor_obeys_history [⟨.endOfInput, ""⟩] [.read .expression, .next] (by decide)
    with ⟨-, -, haccepted, -, -⟩
  rcases cursor_obeys_history [⟨.endOfInput, ""⟩] _ hcommands with ⟨-, -, -, hrefused, -⟩
  rw [hhistory] at haccepted
  rw [hhistory'] at hrefused
  have hsince : ReadSince [.next ⟨.endOfInput, ""⟩] := @readSince_concat_next [] _
  have hsince' : ¬ ReadSince [.next ⟨.endOfInput, ""⟩, .unread] :=
    @not_readSince_concat_unread [.next ⟨.endOfInput, ""⟩]
  exact ⟨hcommands, hhistory, haccepted hsince, hrefused hsince'⟩

end Script
end Calculator
