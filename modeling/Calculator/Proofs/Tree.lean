import Calculator.Grammar.Level
import Calculator.Proofs.Pieces

/-!
# Trees of the grammar

A tree says how tokens are grouped: a sum into products, a product into operands, and an
operand into a number or a negation of a product.  The grammar alone does not say which
tree a token sequence has.  The greedy trees are those in which a negation takes in all
that follows it in its product, so that only the last operand of a product is a negation.

The value of a tree is computed on unbounded integers.  A tree is calculable when no
literal, no intermediate result and no negation on the way to its value leaves the range
of 64 bits, and no divisor is zero.

Main results:

- Theorem `Tree.roomy_iff_termsWithin`: in a greedy tree the negations open at once are
  those of a term.
- Theorems `Tree.evaluatesTo_first`, `Tree.evaluatesTo_more`, `Tree.evaluatesTo_number`
  and `Tree.evaluatesTo_negation`: the checked evaluation of a tree, one for each form.
-/

namespace Calculator

/-- The parts of which an expression is made: chains of a level and operands of products. -/
inductive Part where
  | chain (level : Level)
  | unary

/-- The operands of a sum are products, and those of a product are numbers and negations. -/
def Level.operand : Level → Part
  | sum => .chain .product
  | product => .unary

/-- The level on which an operation stands. -/
def Operator.level : Operator → Level
  | add => .sum
  | sub => .sum
  | mul => .product
  | div => .product

/-- A chain goes on with the operations of its level. -/
theorem Level.follow_eq_operator_iff {level : Level} {kind : Token.Kind} {op : Operator} :
    level.follow kind = .operator op ↔ kind = op.kind ∧ op.level = level := by
  cases level <;> cases kind <;> cases op <;> decide

/-- A sum stops in front of the closing marker only. -/
theorem Level.follow_sum_eq_stop_iff {kind : Token.Kind} :
    Level.sum.follow kind = .stop ↔ kind = .endOfInput := by
  cases kind <;> decide

/-- An operator of a sum stops the product in front of it. -/
theorem Operator.follow_product_of_level_sum {op : Operator} (hlevel : op.level = .sum) :
    Level.product.follow op.kind = .stop := by
  cases op <;> simp [level, kind, Level.follow] at hlevel ⊢

/-- The ways to group the tokens of a part. -/
inductive Tree : Part → Type where
  /-- A chain of one operand. -/
  | first (level : Level) (operand : Tree level.operand) : Tree (.chain level)
  /-- A chain with an operator and one more operand. -/
  | more (level : Level) (chain : Tree (.chain level)) (op : Operator)
      (hlevel : op.level = level) (operand : Tree level.operand) : Tree (.chain level)
  /-- A number, given by its text. -/
  | number (text : String) : Tree .unary
  /-- A minus in front of a product. -/
  | negation (product : Tree (.chain .product)) : Tree .unary

namespace Tree

/-! ## What a tree says -/

/-- The tokens that a tree groups, from left to right. -/
def tokens : {part : Part} → Tree part → List Token
  | _, first _ operand => operand.tokens
  | _, more _ chain op _ operand => chain.tokens ++ op.token :: operand.tokens
  | _, number text => [⟨.number, text⟩]
  | _, negation product => Operator.sub.token :: product.tokens

/-- The value of a tree as an unbounded integer. -/
def value : {part : Part} → Tree part → Int
  | _, first _ operand => operand.value
  | _, more _ chain op _ operand => op.exact chain.value operand.value
  | _, number text => Numeral.decimal text
  | _, negation product => -product.value

/-- The number of negations in a tree. -/
def negations : {part : Part} → Tree part → Nat
  | _, first _ operand => operand.negations
  | _, more _ chain _ _ operand => chain.negations + operand.negations
  | _, number _ => 0
  | _, negation product => product.negations + 1

/-- The last operand of a tree is a negation. -/
def EndsInNegation : {part : Part} → Tree part → Prop
  | _, first _ operand => operand.EndsInNegation
  | _, more _ _ _ _ operand => operand.EndsInNegation
  | _, number _ => False
  | _, negation _ => True

/-- Only the last operand of each product is a negation. -/
def Greedy : {part : Part} → Tree part → Prop
  | _, first _ operand => operand.Greedy
  | _, more level chain _ _ operand =>
      chain.Greedy ∧ operand.Greedy ∧ (level = .product → ¬ chain.EndsInNegation)
  | _, number _ => True
  | _, negation product => product.Greedy

/-- No term of a sum has more negations than the limit. -/
def TermsWithin (limit : Nat) : {part : Part} → Tree part → Prop
  | _, first .sum term => term.negations ≤ limit
  | _, more .sum sum _ _ term => sum.TermsWithin limit ∧ term.negations ≤ limit
  | _, _ => True

/-- The value of a tree can be computed within the range: every literal is at most the
greatest value, no divisor is zero, and every result and every negation is in range. -/
def Calculable : {part : Part} → Tree part → Prop
  | _, first _ operand => operand.Calculable
  | _, more _ chain op _ operand =>
      chain.Calculable ∧ operand.Calculable ∧ ¬ (op = .div ∧ operand.value = 0) ∧
        InRange (op.exact chain.value operand.value)
  | _, number text => Numeral.decimal text ≤ 2 ^ 63 - 1
  | _, negation product => product.Calculable ∧ InRange (-product.value)

/-- Each negation finds room under a limit, with a number of negations open around the
tree. -/
def Roomy (limit : Option Nat) : {part : Part} → Nat → Tree part → Prop
  | _, depth, first _ operand => operand.Roomy limit depth
  | _, depth, more _ chain _ _ operand => chain.Roomy limit depth ∧ operand.Roomy limit depth
  | _, _, number _ => True
  | _, depth, negation product =>
      limit.all (depth < ·) = true ∧ product.Roomy limit (depth + 1)

/-- A tree groups at least one token. -/
theorem tokens_ne_nil {part : Part} (tree : Tree part) : tree.tokens ≠ [] := by
  induction tree with
  | first level operand ih => exact ih
  | more level chain op hlevel operand _ _ => simp [tokens]
  | number text => simp [tokens]
  | negation product _ => simp [tokens]

/-! ## Negations open at once -/

section Negations

variable {part : Part} {tree : Tree part} {limit depth : Nat}

/-- A greedy product that does not end in a negation has none. -/
theorem negations_eq_zero (hpart : part ≠ .chain .sum) (hgreedy : tree.Greedy)
    (hend : ¬ tree.EndsInNegation) : tree.negations = 0 := by
  induction tree with
  | first level operand ih =>
      cases level with
      | sum => exact absurd rfl hpart
      | product => exact ih (by simp [Level.operand]) hgreedy hend
  | more level chain op hlevel operand ihChain ihOperand =>
      rcases hgreedy with ⟨hchain, hoperand, hlast⟩
      cases level with
      | sum => exact absurd rfl hpart
      | product =>
          have hzero := ihChain hpart hchain (hlast rfl)
          have hzero' := ihOperand (by simp [Level.operand]) hoperand hend
          rw [negations, hzero, hzero']
  | number text => rfl
  | negation product ih => exact absurd trivial hend

/-- In a greedy product each negation is open within the ones in front of it. -/
theorem roomy_iff_negations_le (hpart : part ≠ .chain .sum) (hgreedy : tree.Greedy)
    (hdepth : depth ≤ limit) :
    tree.Roomy (some limit) depth ↔ depth + tree.negations ≤ limit := by
  induction tree generalizing depth with
  | first level operand ih =>
      cases level with
      | sum => exact absurd rfl hpart
      | product => exact ih (by simp [Level.operand]) hgreedy hdepth
  | more level chain op hlevel operand ihChain ihOperand =>
      rcases hgreedy with ⟨hchain, hoperand, hlast⟩
      cases level with
      | sum => exact absurd rfl hpart
      | product =>
          have hzero := negations_eq_zero hpart hchain (hlast rfl)
          rw [Roomy, ihChain hpart hchain hdepth,
            ihOperand (by simp [Level.operand]) hoperand hdepth, negations, hzero]
          omega
  | number text => simpa [Roomy, negations] using hdepth
  | negation product ih =>
      rw [Roomy, negations, Option.all_some, decide_eq_true_iff]
      by_cases hroom : depth < limit
      · rw [ih (by simp) hgreedy hroom]
        omega
      · exact iff_of_false (fun hboth => hroom hboth.1) (by omega)

/-- In a greedy tree the negations open at once are those of a term. -/
theorem roomy_iff_termsWithin {tree : Tree (.chain .sum)} (hgreedy : tree.Greedy) :
    tree.Roomy (some limit) 0 ↔ tree.TermsWithin limit := by
  have hterm : ∀ term : Tree (.chain .product), term.Greedy →
      (term.Roomy (some limit) 0 ↔ term.negations ≤ limit) := by
    intro term hterm
    rw [roomy_iff_negations_le (by simp) hterm (Nat.zero_le limit), Nat.zero_add]
  generalize hpart : Part.chain .sum = part at tree
  induction tree with
  | first level operand ih =>
      cases hpart
      exact hterm operand hgreedy
  | more level chain op hlevel operand ihChain ihOperand =>
      cases hpart
      exact and_congr (ihChain rfl hgreedy.1) (hterm operand hgreedy.2.1)
  | number text => cases hpart
  | negation product ih => cases hpart

end Negations

/-! ## Checked evaluation -/

section Evaluation

variable {part : Part} {level : Level} {limit : Option Nat} {depth : Nat} {result : Int64}

/-- A tree that can be calculated has a value in range. -/
theorem inRange_value {tree : Tree part} (hcalculable : tree.Calculable) :
    InRange tree.value := by
  induction tree with
  | first level operand ih => exact ih hcalculable
  | more level chain op hlevel operand ihChain ihOperand => exact hcalculable.2.2.2
  | number text =>
      have hle : Numeral.decimal text ≤ 2 ^ 63 - 1 := hcalculable
      rw [value, inRange_iff]
      omega
  | negation product ih => exact hcalculable.2

/-- A value that can be computed within the range is one of 64 bits. -/
theorem exists_toInt_eq_value {tree : Tree part} (hcalculable : tree.Calculable) :
    ∃ result : Int64, result.toInt = tree.value :=
  exists_toInt_eq_iff.mpr (inRange_value hcalculable)

/-- A negation has its exact value, if it has one. -/
theorem negate_eq_ok_iff {operand : Int64} :
    negate operand = .ok result ↔ result.toInt = -operand.toInt := by
  rw [← narrow?_eq_some_iff]
  unfold negate
  cases narrow? (-operand.toInt) <;> simp

/-- A greedy tree is evaluated to a result under a limit, with a number of negations open
around it. -/
structure EvaluatesTo (tree : Tree part) (limit : Option Nat) (depth : Nat)
    (result : Int64) : Prop where
  greedy : tree.Greedy
  roomy : tree.Roomy limit depth
  calculable : tree.Calculable
  value_eq : result.toInt = tree.value

/-- A chain of one operand evaluates to what the operand does. -/
theorem evaluatesTo_first {operand : Tree level.operand} :
    (first level operand).EvaluatesTo limit depth result ↔
      operand.EvaluatesTo limit depth result :=
  ⟨fun ⟨hgreedy, hroomy, hcalculable, hvalue⟩ => ⟨hgreedy, hroomy, hcalculable, hvalue⟩,
    fun ⟨hgreedy, hroomy, hcalculable, hvalue⟩ => ⟨hgreedy, hroomy, hcalculable, hvalue⟩⟩

/-- A longer chain evaluates to its last operation, and no product goes on after a negation. -/
theorem evaluatesTo_more {chain : Tree (.chain level)} {op : Operator}
    {hlevel : op.level = level} {operand : Tree level.operand} :
    (more level chain op hlevel operand).EvaluatesTo limit depth result ↔
      (level = .product → ¬ chain.EndsInNegation) ∧
        ∃ lhs rhs, chain.EvaluatesTo limit depth lhs ∧ operand.EvaluatesTo limit depth rhs ∧
          op.apply lhs rhs = .ok result := by
  constructor
  · intro h
    rcases h with ⟨⟨hchain, hoperand, hlast⟩, ⟨hroom, hroom'⟩, ⟨hcalc, hcalc', hzero, -⟩, hvalue⟩
    rcases exists_toInt_eq_value hcalc with ⟨lhs, hlhs⟩
    rcases exists_toInt_eq_value hcalc' with ⟨rhs, hrhs⟩
    refine ⟨hlast, lhs, rhs, ⟨hchain, hroom, hcalc, hlhs⟩, ⟨hoperand, hroom', hcalc', hrhs⟩, ?_⟩
    refine Operator.apply_eq_ok_iff.mpr ⟨?_, by rw [hlhs, hrhs]; exact hvalue⟩
    intro h
    rcases h with ⟨hdiv, rfl⟩
    exact hzero ⟨hdiv, hrhs.symm⟩
  · intro h
    rcases h with ⟨hlast, lhs, rhs, hlhs, hrhs, happly⟩
    rcases Operator.apply_eq_ok_iff.mp happly with ⟨hzero, hexact⟩
    rw [hlhs.value_eq, hrhs.value_eq] at hexact
    refine ⟨⟨hlhs.greedy, hrhs.greedy, hlast⟩, ⟨hlhs.roomy, hrhs.roomy⟩,
      ⟨hlhs.calculable, hrhs.calculable, ?_, hexact ▸ inRange_toInt result⟩, hexact⟩
    intro h
    rcases h with ⟨hdiv, hvalue⟩
    rw [← hrhs.value_eq] at hvalue
    exact hzero ⟨hdiv, Int64.toInt_inj.mp hvalue⟩

/-- A number evaluates to what its text is read to. -/
theorem evaluatesTo_number {text : String} (hnumeral : IsNumeral text) :
    (number text).EvaluatesTo limit depth result ↔ Numeral.read text = .ok result := by
  rw [Numeral.read_eq_ok_iff_of_isNumeral hnumeral]
  exact ⟨fun heval => ⟨heval.calculable, heval.value_eq⟩,
    fun ⟨hle, hvalue⟩ => ⟨trivial, trivial, hle, hvalue⟩⟩

/-- A negation evaluates to the negated product, which is one level deeper. -/
theorem evaluatesTo_negation {product : Tree (.chain .product)} :
    (negation product).EvaluatesTo limit depth result ↔
      limit.all (depth < ·) = true ∧
        ∃ inner, product.EvaluatesTo limit (depth + 1) inner ∧ negate inner = .ok result := by
  constructor
  · intro h
    rcases h with ⟨hgreedy, ⟨hroom, hroomy⟩, ⟨hcalculable, -⟩, hvalue⟩
    rcases exists_toInt_eq_value hcalculable with ⟨inner, hinner⟩
    refine ⟨hroom, inner, ⟨hgreedy, hroomy, hcalculable, hinner⟩, ?_⟩
    rw [negate_eq_ok_iff, hinner]
    exact hvalue
  · intro h
    rcases h with ⟨hroom, inner, hinner, hnegate⟩
    rw [negate_eq_ok_iff, hinner.value_eq] at hnegate
    exact ⟨hinner.greedy, ⟨hroom, hinner.roomy⟩,
      ⟨hinner.calculable, hnegate ▸ inRange_toInt result⟩, hnegate⟩

end Evaluation

end Tree

end Calculator
