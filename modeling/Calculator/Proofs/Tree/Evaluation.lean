import Calculator.Proofs.Reading
import Calculator.Proofs.Tree

/-!
# Evaluation by trees

The descent reads a source to a value exactly when the pieces of the source have a greedy
tree that is calculable and not too deep, and the value is that of the tree.

From a reading to a tree, the chain read so far is a tree that grows with each operand.
From a tree to a reading, the tokens of a tree lead from one session to another, whatever
comes after them, as long as it does not go on with a product that a negation has taken in.

Main results:

- Theorem `Phrase.grouped_of_reads`: what is read has a tree.
- Theorem `Tree.readable`: what has a tree is read.
- Theorem `evaluate_eq_ok_iff_exists_tree`: evaluation is evaluation of a greedy tree.
-/

namespace Calculator

open Phrase

/-! ## Spelled tokens -/

/-- The texts of all tokens in front of a closing marker say what their kinds are. -/
def WellSpelled (tokens : List Token) : Prop :=
  ∀ token ∈ tokens, token.kind = .endOfInput ∨ token.Spelled

theorem WellSpelled.of_append {first second : List Token}
    (hspelled : WellSpelled (first ++ second)) : WellSpelled second :=
  fun token htoken => hspelled token (List.mem_append_right first htoken)

theorem WellSpelled.of_cons {token : Token} {others : List Token}
    (hspelled : WellSpelled (token :: others)) : WellSpelled others :=
  fun token' htoken => hspelled token' (List.mem_cons_of_mem token htoken)

/-- Operators of the same kind are the same. -/
theorem Operator.kind_inj {op op' : Operator} (hkind : op.kind = op'.kind) : op = op' := by
  cases op <;> cases op' <;> simp [kind] at hkind ⊢

/-- A spelled token of the kind of an operation is the token of the operation. -/
theorem eq_token_of_kind {token : Token} {op : Operator}
    (hspelled : token.kind = .endOfInput ∨ token.Spelled) (hkind : token.kind = op.kind) :
    token = op.token := by
  rcases hspelled with hend | ⟨hnumber, -⟩ | ⟨op', rfl⟩
  · rw [hkind] at hend
    cases op <;> cases hend
  · rw [hkind] at hnumber
    cases op <;> cases hnumber
  · rw [Operator.kind_inj (show op'.kind = op.kind from hkind)]

/-- A well-spelled number is one or more digits. -/
theorem isNumeral_of_kind {token : Token}
    (hspelled : token.kind = .endOfInput ∨ token.Spelled) (hkind : token.kind = .number) :
    IsNumeral token.text := by
  rcases hspelled with hend | hspelled
  · rw [hkind] at hend
    cases hend
  · exact hspelled.isNumeral hkind

/-! ## From readings to trees -/

/-- A tree groups the tokens between two sessions, and the value is that of the tree. -/
structure Tree.Spans {part : Part} (tree : Tree part) (session : Session) (value : Int64)
    (after : Session) : Prop where
  upcoming_eq : session.upcoming = tree.tokens ++ after.upcoming
  evaluatesTo : tree.EvaluatesTo session.cursor.nestingLimit session.cursor.depth value
  stops : tree.EndsInNegation → Stops .product after.upcoming

/-- What is read of a phrase has a tree; and what is left of a chain goes on with every
tree of the chain so far. -/
def Phrase.Grouped : Phrase → Session → Int64 → Session → Prop
  | chain level, session, value, after =>
      ∃ tree : Tree (.chain level), tree.Spans session value after
  | rest level lhs, session, value, after =>
      ∀ (start : Session) (tree : Tree (.chain level)),
        session.cursor.nestingLimit = start.cursor.nestingLimit →
        session.cursor.depth = start.cursor.depth → tree.Spans start lhs session →
        ∃ whole : Tree (.chain level), whole.Spans start value after
  | unary, session, value, after => ∃ tree : Tree .unary, tree.Spans session value after

/-- An operand that is grouped has a tree. -/
theorem Phrase.Grouped.exists_operand {level : Level} {session after : Session} {value : Int64}
    (hgrouped : (operand level).Grouped session value after) :
    ∃ tree : Tree level.operand, tree.Spans session value after := by
  cases level <;> exact hgrouped

/-- A chain of one operand spans what the operand spans. -/
theorem Tree.Spans.first {level : Level} {operand : Tree level.operand}
    {session middle : Session} {value : Int64}
    (hoperand : operand.Spans (session.enter level.rule) value middle) :
    (Tree.first level operand).Spans session value middle where
  upcoming_eq := hoperand.upcoming_eq
  evaluatesTo := Tree.evaluatesTo_first.mpr hoperand.evaluatesTo
  stops := hoperand.stops

/-- One more operand makes a chain longer. -/
theorem Tree.Spans.more {level : Level} {chain : Tree (.chain level)}
    {operand : Tree level.operand} {op : Operator} {start session middle : Session}
    {lhs rhs combined : Int64} {others : List Token}
    (hchain : chain.Spans start lhs session)
    (hnext : session.upcoming = op.token :: others) (hlevel : op.level = level)
    (hlimit : session.cursor.nestingLimit = start.cursor.nestingLimit)
    (hdepth : session.cursor.depth = start.cursor.depth)
    (hoperand : operand.Spans session.advance rhs middle)
    (happly : op.apply lhs rhs = .ok combined) :
    (Tree.more level chain op hlevel operand).Spans start combined middle where
  upcoming_eq := by
    have hothers := hoperand.upcoming_eq
    rw [Session.upcoming_advance hnext] at hothers
    rw [hchain.upcoming_eq, hnext, hothers]
    simp [Tree.tokens]
  evaluatesTo := by
    have hrhs := hoperand.evaluatesTo
    simp only [Session.advance_cursor, hlimit, hdepth] at hrhs
    refine Tree.evaluatesTo_more.mpr ⟨?_, lhs, rhs, hchain.evaluatesTo, hrhs, happly⟩
    -- behind a negation the product would have stopped
    rintro hproduct hend
    rcases hchain.stops hend with ⟨token, others', hupcoming, hstop⟩
    rw [hnext] at hupcoming
    cases hupcoming
    have hgoes : Level.product.follow op.token.kind = .operator op :=
      Level.follow_eq_operator_iff.mpr ⟨rfl, hlevel.trans hproduct⟩
    rw [hstop] at hgoes
    cases hgoes
  stops := hoperand.stops

/-- What is read has a tree. -/
theorem Phrase.grouped_of_reads {phrase : Phrase} {session after : Session} {value : Int64}
    (hreads : Reads phrase session value after) (hspelled : WellSpelled session.upcoming) :
    phrase.Grouped session value after := by
  induction hreads with
  | @chain level session middle after first value hoperand hrest ihOperand ihRest =>
      rcases (ihOperand hspelled).exists_operand with ⟨operand, hspans⟩
      have hmiddle : WellSpelled middle.upcoming := by
        have heq := hspans.upcoming_eq
        rw [Session.upcoming_enter] at heq
        rw [heq] at hspelled
        exact hspelled.of_append
      rcases hoperand.frame with ⟨-, hlimit, hdepth⟩
      exact ihRest hmiddle session (.first level operand) hlimit hdepth hspans.first
  | @more level session middle after token others op lhs rhs combined value hnext hfollow
      hoperand happly hrest ihOperand ihRest =>
      intro start chain hlimit hdepth hchain
      rw [hnext] at hspelled
      rcases Level.follow_eq_operator_iff.mp hfollow with ⟨hkind, hlevel⟩
      obtain rfl : token = op.token := eq_token_of_kind (hspelled token (by simp)) hkind
      have hadvance : WellSpelled session.advance.upcoming := by
        rw [Session.upcoming_advance hnext]
        exact hspelled.of_cons
      rcases (ihOperand hadvance).exists_operand with ⟨operand, hspans⟩
      have hmiddle : WellSpelled middle.upcoming := by
        rw [hspans.upcoming_eq] at hadvance
        exact hadvance.of_append
      rcases hoperand.frame with ⟨-, hlimit', hdepth'⟩
      exact ihRest hmiddle start (.more level chain op hlevel operand) (hlimit'.trans hlimit)
        (hdepth'.trans hdepth) (hchain.more hnext hlevel hlimit hdepth hspans happly)
  | @stop level session token others value hnext hfollow =>
      intro start chain _ _ hchain
      exact ⟨chain, hchain.upcoming_eq, hchain.evaluatesTo, hchain.stops⟩
  | @number session token others value hnext hkind hread =>
      have hnumeral := isNumeral_of_kind (hspelled token (by simp [hnext])) hkind
      refine ⟨.number token.text, ?_, (Tree.evaluatesTo_number hnumeral).mpr hread, nofun⟩
      have hnext' : (session.enter .unary).upcoming = token :: others := hnext
      rw [hnext, Session.upcoming_advance hnext', Tree.tokens, ← hkind]
      rfl
  | @negation session middle token others value negated hnext hkind hroom hproduct hnegate ih =>
      rw [hnext] at hspelled
      obtain rfl : token = Operator.sub.token :=
        eq_token_of_kind (hspelled token (by simp)) hkind
      have hnext' : (session.enter .unary).upcoming = Operator.sub.token :: others := hnext
      have hothers : (session.enter .unary).advance.deepen.upcoming = others :=
        Session.upcoming_advance hnext'
      rcases ih (by rw [hothers]; exact hspelled.of_cons) with ⟨product, hspans⟩
      refine ⟨.negation product, ?_, ?_, fun _ => hproduct.stops⟩
      · have heq := hspans.upcoming_eq
        rw [hothers] at heq
        rw [hnext, heq]
        rfl
      · exact Tree.evaluatesTo_negation.mpr ⟨hroom, value, hspans.evaluatesTo, hnegate⟩

/-! ## From trees to readings -/

/-- The descent gets from one session to another with the value of a part.  The value of a
chain is what the rest of the chain goes on with. -/
def Part.Reached : Part → Session → Int64 → Session → Prop
  | chain level, session, value, middle =>
      ∀ final after, Reads (.rest level value) middle final after →
        Reads (.chain level) session final after
  | unary, session, value, middle => Reads .unary session value middle

/-- The tokens of a tree lead to its value, whatever comes after them, except that a product
has to stop after a negation and at the end of a sum. -/
def Tree.Readable {part : Part} (tree : Tree part) : Prop :=
  ∀ (session : Session) (rest : List Token) (value : Int64),
    session.upcoming = tree.tokens ++ rest → WellSpelled session.upcoming →
    tree.EvaluatesTo session.cursor.nestingLimit session.cursor.depth value →
    (part = .chain .sum ∨ tree.EndsInNegation → Stops .product rest) →
    ∃ middle, middle.upcoming = rest ∧
      middle.cursor.nestingLimit = session.cursor.nestingLimit ∧
      middle.cursor.depth = session.cursor.depth ∧ part.Reached session value middle

/-- An operand that is readable is read, and a product with its stop. -/
theorem Tree.Readable.exists_reads {level : Level} {operand : Tree level.operand}
    (hreadable : operand.Readable) {session : Session} {rest : List Token} {value : Int64}
    (hupcoming : session.upcoming = operand.tokens ++ rest)
    (hspelled : WellSpelled session.upcoming)
    (hevaluates : operand.EvaluatesTo session.cursor.nestingLimit session.cursor.depth value)
    (hstops : level = .sum ∨ operand.EndsInNegation → Stops .product rest) :
    ∃ after, after.upcoming = rest ∧ Reads (.operand level) session value after := by
  have hstops' : level.operand = .chain .sum ∨ operand.EndsInNegation → Stops .product rest := by
    intro h
    rcases h with hpart | hend
    · cases level <;> cases hpart
    · exact hstops (.inr hend)
  obtain ⟨middle, hrest, -, -, hreached⟩ :=
    hreadable session rest value hupcoming hspelled hevaluates hstops'
  cases level with
  | sum =>
      rcases hstops (.inl rfl) with ⟨token, others, hnext, hstop⟩
      exact ⟨middle.peek, hrest, hreached _ _ (.stop (hrest.trans hnext) hstop)⟩
  | product => exact ⟨middle, hrest, hreached⟩

/-- A chain of one operand is read where the operand is. -/
theorem Tree.Readable.first {level : Level} {operand : Tree level.operand}
    (hoperand : operand.Readable) : (Tree.first level operand).Readable := by
  intro session rest value hupcoming hspelled hevaluates hstops
  have hstops' : level = .sum ∨ operand.EndsInNegation → Stops .product rest := by
    intro h
    rcases h with rfl | hend
    · exact hstops (.inl rfl)
    · exact hstops (.inr hend)
  have hevaluates' := evaluatesTo_first.mp hevaluates
  have hupcoming' : (session.enter level.rule).upcoming = operand.tokens ++ rest := hupcoming
  obtain ⟨after, hafter, hreads⟩ :=
    hoperand.exists_reads hupcoming' hspelled hevaluates' hstops'
  rcases hreads.frame with ⟨-, hlimit, hdepth⟩
  exact ⟨after, hafter, hlimit, hdepth, fun _ _ hrest => .chain hreads hrest⟩

/-- A longer chain is read where the chain in front and the operand behind are. -/
theorem Tree.Readable.more {level : Level} {chain : Tree (.chain level)}
    {operand : Tree level.operand} {op : Operator} {hlevel : op.level = level}
    (hchain : chain.Readable) (hoperand : operand.Readable) :
    (Tree.more level chain op hlevel operand).Readable := by
  intro session rest value hupcoming hspelled hevaluates hstops
  rcases evaluatesTo_more.mp hevaluates with ⟨hlast, lhs, rhs, hlhs, hrhs, happly⟩
  have hfollow : level.follow op.token.kind = .operator op :=
    Level.follow_eq_operator_iff.mpr ⟨rfl, hlevel⟩
  -- the chain in front of the operator
  have hupcoming' : session.upcoming = chain.tokens ++ op.token :: (operand.tokens ++ rest) := by
    rw [hupcoming, tokens, List.append_assoc, List.cons_append]
  have hstopsChain : Part.chain level = .chain .sum ∨ chain.EndsInNegation →
      Stops .product (op.token :: (operand.tokens ++ rest)) := by
    intro hneeds
    cases level with
    | sum => exact ⟨_, _, rfl, Operator.follow_product_of_level_sum hlevel⟩
    | product =>
        rcases hneeds with hpart | hend
        · cases hpart
        · exact absurd hend (hlast rfl)
  obtain ⟨middle, hnext, hlimit, hdepth, hreached⟩ :=
    hchain session _ lhs hupcoming' hspelled hlhs hstopsChain
  -- the operand behind it
  have hadvance : middle.advance.upcoming = operand.tokens ++ rest :=
    Session.upcoming_advance hnext
  have hspelled' : WellSpelled middle.advance.upcoming := by
    rw [hupcoming'] at hspelled
    rw [hadvance]
    exact hspelled.of_append.of_cons
  have hstopsOperand : level = .sum ∨ operand.EndsInNegation → Stops .product rest := by
    intro h
    rcases h with rfl | hend
    · exact hstops (.inl rfl)
    · exact hstops (.inr hend)
  rw [← hlimit, ← hdepth] at hrhs
  obtain ⟨after, hafter, hreads⟩ :=
    hoperand.exists_reads hadvance hspelled' hrhs hstopsOperand
  rcases hreads.frame with ⟨-, hlimit', hdepth'⟩
  exact ⟨after, hafter, hlimit'.trans hlimit, hdepth'.trans hdepth, fun final last hrest =>
    hreached final last (.more hnext hfollow hreads happly hrest)⟩

/-- A number is read wherever it stands. -/
theorem Tree.readable_number (text : String) : (Tree.number text).Readable := by
  intro session rest value hupcoming hspelled hevaluates _
  have hnext : session.upcoming = ⟨.number, text⟩ :: rest := hupcoming
  have hnext' : (session.enter .unary).upcoming = ⟨.number, text⟩ :: rest := hnext
  have hnumeral : IsNumeral text := by
    have hmem : ⟨.number, text⟩ ∈ session.upcoming := by rw [hnext]; simp
    exact isNumeral_of_kind (hspelled _ hmem) rfl
  have hread : Numeral.read text = .ok value := (evaluatesTo_number hnumeral).mp hevaluates
  exact ⟨_, Session.upcoming_advance hnext', rfl, rfl, .number hnext rfl hread⟩

/-- A negation is read where its product is. -/
theorem Tree.Readable.negation {product : Tree (.chain .product)} (hproduct : product.Readable) :
    (Tree.negation product).Readable := by
  intro session rest value hupcoming hspelled hevaluates hstops
  rcases evaluatesTo_negation.mp hevaluates with ⟨hroom, inner, hinner, hnegate⟩
  have hnext : session.upcoming = Operator.sub.token :: (product.tokens ++ rest) := hupcoming
  have hnext' : (session.enter .unary).upcoming =
      Operator.sub.token :: (product.tokens ++ rest) := hnext
  have hupcoming' : (session.enter .unary).advance.deepen.upcoming = product.tokens ++ rest :=
    Session.upcoming_advance hnext'
  have hspelled' : WellSpelled (session.enter .unary).advance.deepen.upcoming := by
    rw [hnext] at hspelled
    rw [hupcoming']
    exact hspelled.of_cons
  have hstop : Stops .product rest := hstops (.inr trivial)
  obtain ⟨middle, hmiddle, -, -, hreached⟩ :=
    hproduct _ rest inner hupcoming' hspelled' hinner fun _ => hstop
  rcases hstop with ⟨token, others, hrest, hfollow⟩
  have hreads := hreached _ _ (.stop (hmiddle.trans hrest) hfollow)
  have hnegation : Reads .unary session value middle.peek.release :=
    .negation hnext rfl hroom hreads hnegate
  rcases hnegation.frame with ⟨-, hlimit, hdepth⟩
  exact ⟨middle.peek.release, hmiddle, hlimit, hdepth, hnegation⟩

/-- What has a tree is read. -/
theorem Tree.readable {part : Part} (tree : Tree part) : tree.Readable := by
  induction tree with
  | first level operand ih => exact ih.first
  | more level chain op hlevel operand ihChain ihOperand => exact ihChain.more ihOperand
  | number text => exact readable_number text
  | negation product ih => exact ih.negation

/-! ## Whole sources -/

/-- Pieces are well spelled, and so is the marker behind them. -/
theorem WellSpelled.of_spelled {pieces : List Token}
    (hspelled : ∀ piece ∈ pieces, piece.Spelled) :
    WellSpelled (pieces ++ [Token.endOfInput]) := by
  intro token htoken
  rw [List.mem_append, List.mem_singleton] at htoken
  rcases htoken with hpiece | rfl
  · exact .inr (hspelled token hpiece)
  · exact .inl rfl

/-- The first closing marker is behind all pieces. -/
theorem eq_of_append_endOfInput {pieces tokens others : List Token} {token : Token}
    (hpieces : ∀ piece ∈ pieces, piece.kind ≠ .endOfInput) (hkind : token.kind = .endOfInput)
    (heq : pieces ++ [Token.endOfInput] = tokens ++ token :: others) : tokens = pieces := by
  rcases List.eq_nil_or_concat others with rfl | ⟨init, last, rfl⟩
  · exact (List.append_inj_left' heq rfl).symm
  · have hinit : pieces = tokens ++ token :: init := by
      rw [List.concat_eq_append, ← List.cons_append, ← List.append_assoc] at heq
      exact List.append_inj_left' heq rfl
    have hmem : token ∈ pieces := by
      rw [hinit]
      simp
    exact absurd hkind (hpieces token hmem)

/-- Under every limit, tokens in front of the closing marker are evaluated by a greedy tree
of them. -/
theorem evaluateTokensWithin_eq_ok_iff_exists_tree {limit : Nat} {pieces : List Token}
    {value : Int64} (hne : pieces ≠ []) (hspelled : ∀ piece ∈ pieces, piece.Spelled) :
    evaluateTokensWithin (some limit) (pieces ++ [Token.endOfInput]) = .ok value ↔
      ∃ tree : Tree (.chain .sum), tree.tokens = pieces ∧ tree.Greedy ∧
        tree.TermsWithin limit ∧ tree.Calculable ∧ value.toInt = tree.value := by
  have hmarker : ∀ piece ∈ pieces, piece.kind ≠ .endOfInput :=
    fun piece hpiece => (hspelled piece hpiece).kind_ne_endOfInput
  have hwell : WellSpelled (pieces ++ [Token.endOfInput]) := .of_spelled hspelled
  rcases List.exists_cons_of_ne_nil hne with ⟨piece, others, rfl⟩
  rw [List.cons_append, evaluateTokensWithin_eq_ok_iff_reads (hmarker piece (by simp)),
    ← List.cons_append]
  constructor
  · intro h
    rcases h with ⟨after, hreads⟩
    obtain ⟨tree, hspans⟩ :=
      Phrase.grouped_of_reads hreads (by rw [Session.upcoming_opening]; exact hwell)
    rcases hreads.stops with ⟨token, others', hafter, hstop⟩
    have hupcoming := hspans.upcoming_eq
    rw [Session.upcoming_opening, hafter] at hupcoming
    have hkind : token.kind = .endOfInput := Level.follow_sum_eq_stop_iff.mp hstop
    rcases hspans.evaluatesTo with ⟨hgreedy, hroomy, hcalculable, hvalue⟩
    exact ⟨tree, eq_of_append_endOfInput hmarker hkind hupcoming, hgreedy,
      (Tree.roomy_iff_termsWithin hgreedy).mp hroomy, hcalculable, hvalue⟩
  · intro h
    rcases h with ⟨tree, htokens, hgreedy, hterms, hcalculable, hvalue⟩
    have hstop : Stops .product [Token.endOfInput] := ⟨_, _, rfl, rfl⟩
    obtain ⟨middle, hmiddle, -, -, hreached⟩ :=
      tree.readable (Session.opening (some limit) (piece :: others ++ [Token.endOfInput]))
        [Token.endOfInput] value (by rw [Session.upcoming_opening, htokens])
        (by rw [Session.upcoming_opening]; exact hwell)
        ⟨hgreedy, (Tree.roomy_iff_termsWithin hgreedy).mpr hterms, hcalculable, hvalue⟩
        fun _ => hstop
    exact ⟨_, hreached _ _ (.stop hmiddle rfl)⟩

/-- A source is evaluated to a value exactly when it has nothing but spaces and the value is
zero, or its characters are all in the alphabet and its pieces have a greedy tree which is
calculable, with at most 256 negations in each term, and the value is that of the tree. -/
theorem evaluate_eq_ok_iff_exists_tree (source : String) (value : Int64) :
    evaluate source = .ok value ↔
      ((∀ c ∈ source.toList, c = ' ') ∧ value = 0) ∨
      ((∀ c ∈ source.toList, InAlphabet c) ∧
        ∃ tree : Tree (.chain .sum), tree.tokens = pieces source ∧ tree.Greedy ∧
          tree.TermsWithin 256 ∧ tree.Calculable ∧ value.toInt = tree.value) := by
  rw [evaluate_eq]
  by_cases halphabet : ∀ c ∈ source.toList, InAlphabet c
  · have htokens : tokenize source = .ok (pieces source ++ [Token.endOfInput]) :=
      tokenize_eq_ok_iff.mpr ⟨halphabet, rfl⟩
    have hblank : pieces source = [] ↔ ∀ c ∈ source.toList, c = ' ' :=
      piecesOf_eq_nil_iff halphabet
    rw [htokens, ← hblank, and_iff_right halphabet]
    by_cases hempty : pieces source = []
    · have hzero : evaluateTokens ([] ++ [Token.endOfInput]) = .ok 0 :=
        evaluateTokensWithin_end rfl
      have hnone : ¬ ∃ tree : Tree (.chain .sum), tree.tokens = [] ∧ tree.Greedy ∧
          tree.TermsWithin 256 ∧ tree.Calculable ∧ value.toInt = tree.value :=
        fun ⟨tree, hnil, _⟩ => tree.tokens_ne_nil hnil
      simp only [hempty, hzero, hnone, or_false, true_and, Except.ok.injEq]
      exact eq_comm
    · have hspelled : ∀ piece ∈ pieces source, piece.Spelled :=
        fun piece hpiece => Token.spelled_of_mem_piecesOf halphabet hpiece
      rw [or_iff_right fun hboth => hempty hboth.1]
      exact evaluateTokensWithin_eq_ok_iff_exists_tree hempty hspelled
  · have hspaces : ¬ ∀ c ∈ source.toList, c = ' ' := by
      intro hspaces
      apply halphabet
      intro c hc
      rw [hspaces c hc]
      exact .inr (by simp)
    cases htokens : tokenize source with
    | ok tokens => exact absurd (tokenize_eq_ok_iff.mp htokens).1 halphabet
    | error error =>
        refine iff_of_false (by simp) ?_
        intro h
        rcases h with ⟨hall, -⟩ | ⟨hall, -⟩
        · exact hspaces hall
        · exact halphabet hall

end Calculator
