import LoxFrontEnd.Proofs.Grammar.Acceptance

/-! # How high trees grow

The nesting limit counts unary operators and groupings, and the strata let right operands nest at
most four deep between two of these. So a parsed tree is at most 645 nodes high if the step into a
left operand is free (`Expr.rightHeight`). Left operands are not limited: the height of a tree
grows with half the number of tokens (`Expr.two_mul_height_le`), and a sum reaches that bound up
to a constant (`parse_sumTokens`). -/

namespace LoxFrontEnd
set_option autoImplicit false

namespace Expr

/-- The number of nodes on the longest chain of nested nodes. -/
def height : Expr → Nat
  | literal _ => 1
  | grouping inner => inner.height + 1
  | unary _ operand => operand.height + 1
  | binary left _ right => max left.height right.height + 1

/-- The height of a tree in which a binary node and its left operand are one step. -/
def rightHeight : Expr → Nat
  | literal _ => 1
  | grouping inner => inner.rightHeight + 1
  | unary _ operand => operand.rightHeight + 1
  | binary left _ right => max left.rightHeight (right.rightHeight + 1)

theorem yield_length_pos (expr : Expr) : 0 < expr.yield.length := by
  cases expr with
  | binary left op right =>
    rw [yield, List.length_append, List.length_cons]
    omega
  | _ => exact Nat.succ_pos _

/-- Each step into a left operand leaves an operator and a right operand behind. -/
theorem two_mul_height_le (expr : Expr) :
    2 * expr.height ≤ expr.yield.length + expr.rightHeight := by
  induction expr with
  | literal value => exact Nat.le_refl _
  | grouping inner ih =>
    simp only [height, rightHeight, yield, List.length_cons, List.length_append, List.length_nil]
    omega
  | unary op operand ih =>
    simp only [height, rightHeight, yield, List.length_cons]
    omega
  | binary left op right ihl ihr =>
    have hl := left.yield_length_pos
    have hr := right.yield_length_pos
    simp only [height, rightHeight, yield, List.length_append, List.length_cons]
    omega

/-- A right operand is of a tighter stratum than its operator, so only a grouping or a unary
operator can start a new descent through the four levels. -/
theorem Stratified.rightHeight_add_strength_le {expr : Expr} (h : expr.Stratified) :
    expr.rightHeight + min expr.stratum.strength Stratum.unary.strength ≤
      5 * expr.nesting + 5 := by
  have hunary : Stratum.unary.strength = 4 := rfl
  rw [hunary]
  induction expr with
  | literal value => exact Nat.le_refl _
  | grouping inner ih =>
    have hinner := ih h
    simp only [rightHeight, nesting]
    omega
  | unary op operand ih =>
    have hoperand := ih h.1
    simp only [rightHeight, nesting]
    omega
  | binary left op right ihl ihr =>
    obtain ⟨hl, hr, hll, hlr⟩ := h
    have hleft := ihl hl
    have hright := ihr hr
    have hop := Stratum.strength_binary_lt op.level
    rw [hunary] at hop
    simp only [rightHeight, nesting, stratum]
    omega

end Expr

theorem height_le_of_parse {tokens : List Token} {expr : Expr} (h : parse tokens = .ok expr) :
    expr.rightHeight ≤ 645 ∧ 2 * expr.height ≤ (beforeEof tokens).length + 645 := by
  obtain ⟨hd, hn⟩ := TokenStream.parse_eq_ok_iff.1 h
  change Derives _ (beforeEof tokens) expr at hd
  have hn : expr.nesting ≤ 128 := hn
  have hright : expr.rightHeight ≤ 645 := by
    have := hd.stratified.rightHeight_add_strength_le
    omega
  have hlength : (beforeEof tokens).length = expr.yield.length := by
    have hy : (beforeEof tokens).map Token.terminal? = expr.yield.map some := hd.yields
    simpa using congrArg List.length hy
  have := expr.two_mul_height_le
  exact ⟨hright, by omega⟩

/-! ## Sums -/

/-- An operand, and `n` times the operator and the operand again. -/
def sumTokens (operand plus : Token) : Nat → List Token
  | 0 => [operand]
  | n + 1 => sumTokens operand plus n ++ [plus, operand]

def Expr.sum (value : Value) : Nat → Expr
  | 0 => .literal value
  | n + 1 => .binary (sum value n) .add (.literal value)

theorem Expr.height_sum (value : Value) (n : Nat) : (Expr.sum value n).height = n + 1 := by
  induction n with
  | zero => rfl
  | succ n ih =>
    rw [sum, height, ih]
    exact congrArg (· + 1) (Nat.max_eq_left (Nat.succ_le_succ (Nat.zero_le n)))

theorem Expr.nesting_sum (value : Value) (n : Nat) : (Expr.sum value n).nesting = 0 := by
  induction n with
  | zero => rfl
  | succ n ih => rw [sum, nesting, ih]; rfl

section
variable {operand plus : Token} {value : Value} (hv : operand.value? = some value)
  (hp : plus.kind = .symbol .plus)
include hv hp

theorem derives_sum (n : Nat) : Derives (.binary .term) (sumTokens operand plus n) (.sum value n) := by
  have hoperand : Derives .primary [operand] (.literal value) := .literal hv
  induction n with
  | zero => exact hoperand.of_strength_le (by decide)
  | succ n ih => exact .fold ih hp rfl (hoperand.of_strength_le (by decide))

theorem beforeEof_sumTokens (n : Nat) :
    beforeEof (sumTokens operand plus n) = sumTokens operand plus n := by
  have hoperand : operand.kind ≠ .eof := by
    intro hk
    simp [Token.value?, hk] at hv
  have hmem : ∀ token ∈ sumTokens operand plus n, !token.isEof := by
    induction n with
    | zero => simpa [sumTokens, Token.isEof] using hoperand
    | succ n ih =>
      intro token hm
      rcases List.mem_append.1 hm with hm | hm
      · exact ih token hm
      · simp only [List.mem_cons, List.not_mem_nil, or_false] at hm
        rcases hm with rfl | rfl
        · simp [Token.isEof, hp]
        · simpa [Token.isEof] using hoperand
  rw [beforeEof, ← List.append_nil (sumTokens operand plus n), List.takeWhile_append_of_pos hmem]
  rfl

theorem parse_sumTokens (n : Nat) :
    parse (sumTokens operand plus n) = .ok (.sum value n) := by
  refine TokenStream.parse_eq_ok_iff.2 ⟨?_, ?_⟩
  · change Derives _ (beforeEof _) _
    rw [beforeEof_sumTokens hv hp]
    exact (derives_sum hv hp n).of_strength_le (Nat.zero_le _)
  · rw [Expr.nesting_sum]
    exact Nat.zero_le _

end

/-! ## Parsed trees -/

theorem length_sumTokens (operand plus : Token) (n : Nat) :
    (sumTokens operand plus n).length = 2 * n + 1 := by
  induction n with
  | zero => rfl
  | succ n ih =>
    rw [sumTokens, List.length_append, ih]
    rfl

theorem exists_parse_of_height (n : Nat) :
    ∃ tokens expr, parse tokens = .ok expr ∧ tokens.length = 2 * n + 1 ∧ expr.height = n + 1 := by
  have hparse : parse (sumTokens ⟨.keyword .nilWord, "nil", none, 1⟩
      ⟨.symbol .plus, "+", none, 1⟩ n) = .ok (.sum .nil n) := parse_sumTokens rfl rfl n
  exact ⟨_, _, hparse, length_sumTokens .., Expr.height_sum ..⟩

/-- What the nesting limit does for the height of parsed trees: it limits all chains of nodes but
those through left operands. A sum of `2 * n + 1` tokens is parsed as a tree of height `n + 1`. -/
theorem parse_height (n : Nat) :
    (∀ tokens expr, parse tokens = .ok expr →
      expr.rightHeight ≤ 645 ∧ 2 * expr.height ≤ (beforeEof tokens).length + 645) ∧
    ∃ tokens expr, parse tokens = .ok expr ∧ tokens.length = 2 * n + 1 ∧ expr.height = n + 1 :=
  ⟨fun _ _ h => height_le_of_parse h, exists_parse_of_height n⟩

theorem parse_height_unbounded :
    ¬ ∃ bound, ∀ tokens expr, parse tokens = .ok expr → expr.height ≤ bound := by
  rintro ⟨bound, h⟩
  obtain ⟨tokens, expr, hparse, -, hheight⟩ := exists_parse_of_height bound
  have := h tokens expr hparse
  omega

end LoxFrontEnd
