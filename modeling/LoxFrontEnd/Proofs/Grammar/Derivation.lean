import LoxFrontEnd.Parse.Basic

/-! # Derivations of expressions

The grammar of expressions as a relation between lists of tokens and trees: `Derives s ts e` says
that the tokens `ts` derive the tree `e` in stratum `s`. The strata are the four levels of binary
operators, from the loosest to the tightest, then unary operators, then operands that no operator
is applied in. `derives_iff` says the same without derivations: the tokens are the yield of the
tree, its operands bind as the strata ask, and the tree itself binds at least as tightly as `s`. -/

namespace LoxFrontEnd
set_option autoImplicit false

/-- The value that a token stands for where an operand is expected. -/
def Token.value? (token : Token) : Option Value :=
  match token.kind with
  | .keyword .falseWord => some (.bool false)
  | .keyword .trueWord => some (.bool true)
  | .keyword .nilWord => some .nil
  | .number | .string => token.literal.map Literal.toValue
  | _ => none

/-- The tokens before the first end of the source. -/
def beforeEof (tokens : List Token) : List Token := tokens.takeWhile fun token => !token.isEof

inductive Stratum
  | binary (level : BinaryOp.Level)
  | unary
  | primary
  deriving DecidableEq

/-- The stratum that the operands of a level are taken from. -/
def BinaryOp.Level.operands : BinaryOp.Level → Stratum
  | equality => .binary comparison
  | comparison => .binary term
  | term => .binary factor
  | factor => .unary

inductive Derives : Stratum → List Token → Expr → Prop
  | single {level : BinaryOp.Level} {tokens : List Token} {expr : Expr} :
      Derives level.operands tokens expr → Derives (.binary level) tokens expr
  | fold {level : BinaryOp.Level} {before behind : List Token} {token : Token} {op : BinaryOp}
      {left right : Expr} :
      Derives (.binary level) before left → token.kind = .symbol op.symbol → op.level = level →
      Derives level.operands behind right →
      Derives (.binary level) (before ++ token :: behind) (.binary left op right)
  | unary {token : Token} {op : UnaryOp} {tokens : List Token} {expr : Expr} :
      token.kind = .symbol op.symbol → Derives .unary tokens expr →
      Derives .unary (token :: tokens) (.unary op expr)
  | primary {tokens : List Token} {expr : Expr} :
      Derives .primary tokens expr → Derives .unary tokens expr
  | literal {token : Token} {value : Value} :
      token.value? = some value → Derives .primary [token] (.literal value)
  | grouping {opening closing : Token} {tokens : List Token} {expr : Expr} :
      opening.kind = .symbol .leftParen → closing.kind = .symbol .rightParen →
      Derives (.binary .equality) tokens expr →
      Derives .primary (opening :: (tokens ++ [closing])) (.grouping expr)

/-! ## Trees -/

namespace Expr

/-- The greatest number of unary operators and groupings around any node. -/
def nesting : Expr → Nat
  | literal _ => 0
  | grouping inner => inner.nesting + 1
  | unary _ operand => operand.nesting + 1
  | binary left _ right => max left.nesting right.nesting

def stratum : Expr → Stratum
  | literal _ | grouping _ => .primary
  | unary .. => .unary
  | binary _ op _ => .binary op.level

end Expr

def Stratum.strength : Stratum → Nat
  | binary .equality => 0
  | binary .comparison => 1
  | binary .term => 2
  | binary .factor => 3
  | unary => 4
  | primary => 5

/-- Left operands bind at least as tightly as their operator, right operands more tightly, and
operands of unary operators are not binary. -/
def Expr.Stratified : Expr → Prop
  | literal _ => True
  | grouping inner => inner.Stratified
  | unary _ operand => operand.Stratified ∧ Stratum.unary.strength ≤ operand.stratum.strength
  | binary left op right => left.Stratified ∧ right.Stratified ∧
      (Stratum.binary op.level).strength ≤ left.stratum.strength ∧
      (Stratum.binary op.level).strength < right.stratum.strength

inductive Terminal
  | symbol (symbol : Symbol)
  | value (value : Value)
  deriving DecidableEq

def Token.terminal? (token : Token) : Option Terminal :=
  match token.kind with
  | .symbol s => some (.symbol s)
  | _ => token.value?.map .value

/-- The terminals of a tree from left to right. -/
def Expr.yield : Expr → List Terminal
  | literal value => [.value value]
  | grouping inner => .symbol .leftParen :: (inner.yield ++ [.symbol .rightParen])
  | unary op operand => .symbol op.symbol :: operand.yield
  | binary left op right => left.yield ++ .symbol op.symbol :: right.yield

/-- The tokens are the yield of the tree: none lost, added or moved. -/
def Yields (tokens : List Token) (expr : Expr) : Prop :=
  tokens.map Token.terminal? = expr.yield.map some

theorem Token.terminal?_eq_symbol_iff {token : Token} {symbol : Symbol} :
    token.terminal? = some (.symbol symbol) ↔ token.kind = .symbol symbol := by
  unfold Token.terminal?
  split <;> simp_all

theorem Token.terminal?_eq_value_iff {token : Token} {value : Value} :
    token.terminal? = some (.value value) ↔ token.value? = some value := by
  unfold Token.terminal?
  split
  · next h => simp [Token.value?, h]
  · simp

/-! ## Strata -/

theorem BinaryOp.Level.strength_operands (level : BinaryOp.Level) :
    level.operands.strength = (Stratum.binary level).strength + 1 := by
  cases level <;> rfl

theorem Stratum.strength_binary_lt (level : BinaryOp.Level) :
    (Stratum.binary level).strength < Stratum.unary.strength := by
  cases level <;> decide

theorem Stratum.strength_le_primary (s : Stratum) : s.strength ≤ Stratum.primary.strength := by
  cases s with
  | binary level => cases level <;> decide
  | _ => decide

theorem Stratum.strength_injective {s s' : Stratum} (h : s.strength = s'.strength) : s = s' := by
  rcases s with ⟨_ | _ | _ | _⟩ | _ | _ <;> rcases s' with ⟨_ | _ | _ | _⟩ | _ | _ <;>
    first | rfl | exact absurd h (by decide)

theorem Derives.of_strength_le {s s' : Stratum} {tokens : List Token} {expr : Expr}
    (d : Derives s' tokens expr) (h : s.strength ≤ s'.strength) : Derives s tokens expr := by
  obtain ⟨k, hk⟩ := Nat.exists_eq_add_of_le h
  induction k generalizing s with
  | zero =>
    obtain rfl : s' = s := Stratum.strength_injective hk
    exact d
  | succ k ih =>
    cases s with
    | binary level =>
      have hs := level.strength_operands
      exact .single (ih (by omega) (by omega))
    | unary =>
      have hp : Stratum.primary.strength = Stratum.unary.strength + 1 := rfl
      exact .primary (ih (by omega) (by omega))
    | primary =>
      have := s'.strength_le_primary
      omega

/-! ## Derivations and yields -/

theorem Derives.strength_le {s : Stratum} {tokens : List Token} {expr : Expr}
    (d : Derives s tokens expr) : s.strength ≤ expr.stratum.strength := by
  induction d with
  | @single level _ _ _ ih =>
    have := level.strength_operands
    omega
  | fold _ _ hlevel _ _ _ => exact Nat.le_of_eq (by rw [Expr.stratum, hlevel])
  | unary | literal | grouping => exact Nat.le_refl _
  | primary _ ih => exact Nat.le_trans (by decide) ih

theorem Derives.stratified {s : Stratum} {tokens : List Token} {expr : Expr}
    (d : Derives s tokens expr) : expr.Stratified := by
  induction d with
  | single _ ih | primary _ ih | grouping _ _ _ ih => exact ih
  | @fold level _ _ _ op left right dl _ hlevel dr ihl ihr =>
    subst hlevel
    have hr := dr.strength_le
    rw [op.level.strength_operands] at hr
    exact ⟨ihl, ihr, dl.strength_le, hr⟩
  | unary _ d ih => exact ⟨ih, d.strength_le⟩
  | literal => trivial

theorem Derives.yields {s : Stratum} {tokens : List Token} {expr : Expr}
    (d : Derives s tokens expr) : Yields tokens expr := by
  induction d with
  | single _ ih | primary _ ih => exact ih
  | fold _ hop _ _ ihl ihr =>
    rw [Yields] at ihl ihr ⊢
    simp [Expr.yield, ihl, ihr, Token.terminal?_eq_symbol_iff.2 hop]
  | unary hop _ ih =>
    rw [Yields] at ih ⊢
    simp [Expr.yield, ih, Token.terminal?_eq_symbol_iff.2 hop]
  | literal hv => simp [Yields, Expr.yield, Token.terminal?_eq_value_iff.2 hv]
  | grouping ho hc _ ih =>
    rw [Yields] at ih ⊢
    simp [Expr.yield, ih, Token.terminal?_eq_symbol_iff.2 ho, Token.terminal?_eq_symbol_iff.2 hc]

theorem Expr.Stratified.derives {expr : Expr} (h : expr.Stratified) :
    ∀ {tokens : List Token}, Yields tokens expr → Derives expr.stratum tokens expr := by
  induction expr with
  | literal value =>
    intro tokens hy
    obtain ⟨token, rfl, ht⟩ := List.map_eq_singleton_iff.1 hy
    exact .literal (Token.terminal?_eq_value_iff.1 ht)
  | grouping inner ih =>
    intro tokens hy
    rw [Yields, Expr.yield, List.map_cons, List.map_append, List.map_singleton] at hy
    obtain ⟨opening, more, rfl, ho, hy⟩ := List.map_eq_cons_iff.1 hy
    obtain ⟨middle, last, rfl, hm, hy⟩ := List.map_eq_append_iff.1 hy
    obtain ⟨closing, rfl, hc⟩ := List.map_eq_singleton_iff.1 hy
    exact .grouping (Token.terminal?_eq_symbol_iff.1 ho) (Token.terminal?_eq_symbol_iff.1 hc)
      ((ih h hm).of_strength_le (Nat.zero_le _))
  | unary op operand ih =>
    intro tokens hy
    obtain ⟨token, more, rfl, ht, hm⟩ := List.map_eq_cons_iff.1 hy
    exact .unary (Token.terminal?_eq_symbol_iff.1 ht) ((ih h.1 hm).of_strength_le h.2)
  | binary left op right ihl ihr =>
    intro tokens hy
    obtain ⟨hl, hr, hll, hlr⟩ := h
    rw [Yields, Expr.yield, List.map_append, List.map_cons] at hy
    obtain ⟨before, more, rfl, hb, hy⟩ := List.map_eq_append_iff.1 hy
    obtain ⟨token, behind, rfl, ht, hm⟩ := List.map_eq_cons_iff.1 hy
    refine .fold ((ihl hl hb).of_strength_le hll) (Token.terminal?_eq_symbol_iff.1 ht) rfl
      ((ihr hr hm).of_strength_le ?_)
    rw [op.level.strength_operands]
    exact hlr

theorem derives_iff {s : Stratum} {tokens : List Token} {expr : Expr} :
    Derives s tokens expr ↔
      Yields tokens expr ∧ expr.Stratified ∧ s.strength ≤ expr.stratum.strength := by
  constructor
  · intro d
    exact ⟨d.yields, d.stratified, d.strength_le⟩
  · rintro ⟨hy, hs, hle⟩
    exact (hs.derives hy).of_strength_le hle

end LoxFrontEnd
