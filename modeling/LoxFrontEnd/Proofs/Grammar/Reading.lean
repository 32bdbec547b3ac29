import LoxFrontEnd.Proofs.Grammar.Derivation

/-! # What the rules read

What a token is where an operand is expected decides the one step of an operand
(`Rule.operandRun_cons`). A rule that succeeds has read tokens that derive its tree, and the
nesting of the tree stays within the levels that the rule was given (`Rule.Sound`). -/

namespace LoxFrontEnd
set_option autoImplicit false

/-! ## The front of an operand -/

inductive OperandFront
  | operator (op : UnaryOp)
  | opening
  | value (value : Value)
  | missing
  | foreign

/-- A number or string without a literal is a `missing` value; what starts no operand is
`foreign` to it. -/
def Token.front (token : Token) : OperandFront :=
  match token.kind with
  | .symbol .bang => .operator .not
  | .symbol .minus => .operator .negate
  | .symbol .leftParen => .opening
  | .keyword .falseWord => .value (.bool false)
  | .keyword .trueWord => .value (.bool true)
  | .keyword .nilWord => .value .nil
  | .number | .string =>
    match token.literal with
    | some literal => .value literal.toValue
    | none => .missing
  | _ => .foreign

theorem Token.front_eq_operator_iff {token : Token} {op : UnaryOp} :
    token.front = .operator op ↔ token.kind = .symbol op.symbol := by
  unfold Token.front
  split <;> cases op <;> simp_all [UnaryOp.symbol]
  all_goals split <;> simp

theorem Token.front_eq_opening_iff {token : Token} :
    token.front = .opening ↔ token.kind = .symbol .leftParen := by
  unfold Token.front
  split <;> simp_all
  all_goals split <;> simp

theorem Token.front_eq_value_iff {token : Token} {value : Value} :
    token.front = .value value ↔ token.value? = some value := by
  unfold Token.front Token.value?
  split <;> simp_all
  all_goals split <;> simp_all

/-! ## What stands behind a phrase -/

/-- The token in front, if any, is no binary operator that a phrase of the stratum could go on
with. -/
def Stratum.Clear (s : Stratum) (rest : List Token) : Prop :=
  ∀ token ∈ rest.head?, ∀ op : BinaryOp, token.kind = .symbol op.symbol →
    (Stratum.binary op.level).strength < s.strength

theorem Stratum.Clear.mono {s s' : Stratum} {rest : List Token} (h : s.Clear rest)
    (hs : s.strength ≤ s'.strength) : s'.Clear rest :=
  fun token ht op hk => Nat.lt_of_lt_of_le (h token ht op hk) hs

theorem Stratum.clear_nil (s : Stratum) : s.Clear [] := by simp [Stratum.Clear]

theorem Stratum.clear_unary (rest : List Token) : Stratum.unary.Clear rest :=
  fun _ _ op _ => Stratum.strength_binary_lt op.level

theorem BinaryOp.symbol_injective {op op' : BinaryOp} (h : op.symbol = op'.symbol) : op = op' := by
  cases op <;> cases op' <;> first | rfl | exact absurd h (by decide)

theorem Stratum.clear_operator {s : Stratum} {token : Token} {op : BinaryOp}
    (rest : List Token) (hk : token.kind = .symbol op.symbol)
    (hs : (Stratum.binary op.level).strength < s.strength) : s.Clear (token :: rest) := by
  intro token' ht op' hk'
  obtain rfl : token = token' := by simpa using ht
  rw [hk, Kind.symbol.injEq] at hk'
  rwa [← BinaryOp.symbol_injective hk']

theorem Stratum.Clear.of_operator? {level : BinaryOp.Level} {token : Token} {rest : List Token}
    (h : level.operands.Clear (token :: rest)) (hop : level.operator? token.kind = none) :
    (Stratum.binary level).Clear (token :: rest) := by
  intro token' ht op hk
  have hlt := h token' ht op hk
  obtain rfl : token = token' := by simpa using ht
  have hne : op.level ≠ level := by
    intro hlevel
    rw [BinaryOp.Level.operator?_eq_some_iff.2 ⟨hk, hlevel⟩] at hop
    cases hop
  have hs : (Stratum.binary op.level).strength ≠ (Stratum.binary level).strength := by
    intro hs
    exact hne (by simpa using Stratum.strength_injective hs)
  rw [level.strength_operands] at hlt
  omega

theorem Stratum.clear_closing {s : Stratum} {token : Token} (rest : List Token)
    (hk : token.kind = .symbol .rightParen) : s.Clear (token :: rest) := by
  intro token' ht op hk'
  obtain rfl : token = token' := by simpa using ht
  rw [hk, Kind.symbol.injEq] at hk'
  cases op <;> simp [BinaryOp.symbol] at hk'

namespace Rule

def deeper? (finish : Token) : Nat → Option Rule
  | 0 => none
  | levels + 1 => some (operand finish levels)

theorem operand_run (finish : Token) (levels : Nat) :
    (operand finish levels).run = operandRun finish (deeper? finish levels) := by
  cases levels <;> rfl

theorem operandRun_nil (finish : Token) (deeper? : Option Rule) :
    operandRun finish deeper? [] = (.error ⟨.expectExpression, finish⟩, []) := rfl

theorem operandRun_cons (finish : Token) (deeper? : Option Rule) (token : Token)
    (rest : List Token) :
    operandRun finish deeper? (token :: rest) =
      match token.front, deeper? with
      | .operator _, none | .opening, none => (.error ⟨.tooDeep, token⟩, rest)
      | .operator op, some deeper =>
        match deeper.run rest with
        | (.error error, behind) => (.error error, behind)
        | (.ok expr, behind) => (.ok (.unary op expr), behind)
      | .opening, some deeper => groupingRun finish deeper.binary rest
      | .value value, _ => (.ok (.literal value), rest)
      | .missing, _ => (.error ⟨.expectLiteral, token⟩, rest)
      | .foreign, _ => (.error ⟨.expectExpression, token⟩, token :: rest) := by
  unfold operandRun Token.front
  cases hk : token.kind with
  | symbol s =>
    cases deeper? with
    | none => cases s <;> simp [UnaryOp.ofKind?, primaryRun, hk]
    | some deeper =>
      rcases hr : deeper.run rest with ⟨_ | _, _⟩ <;> cases s <;>
        simp [UnaryOp.ofKind?, primaryRun, hk, hr]
  | keyword word => cases word <;> simp [UnaryOp.ofKind?, primaryRun, hk]
  | identifier | eof => simp [UnaryOp.ofKind?, primaryRun, hk]
  | number | string => cases hl : token.literal <;> simp [UnaryOp.ofKind?, primaryRun, hk, hl]

/-! ## Success is a derivation -/

/-- A rule that succeeds has read tokens that derive its tree in a stratum, with at most `levels`
unary operators and groupings around any node. -/
def Sound (rule : Rule) (s : Stratum) (levels : Nat) : Prop :=
  ∀ tokens expr rest, rule.run tokens = (.ok expr, rest) →
    ∃ read, tokens = read ++ rest ∧ Derives s read expr ∧ expr.nesting ≤ levels

theorem extend_sound {level : BinaryOp.Level} {operand : Rule} {levels : Nat}
    (h : operand.Sound level.operands levels) {read tokens rest : List Token} {left expr : Expr}
    (hl : Derives (.binary level) read left) (hn : left.nesting ≤ levels)
    (hr : extend level operand left tokens = (.ok expr, rest)) :
    ∃ more, tokens = more ++ rest ∧ Derives (.binary level) (read ++ more) expr ∧
      expr.nesting ≤ levels := by
  fun_induction extend level operand left tokens generalizing read with
  | case1 | case2 =>
    simp only [Prod.mk.injEq, Except.ok.injEq] at hr
    obtain ⟨rfl, rfl⟩ := hr
    exact ⟨[], rfl, by simpa using hl, hn⟩
  | case3 => simp at hr
  | case4 left token tokens op hop right behind hrun ih =>
    obtain ⟨hk, hlevel⟩ := BinaryOp.Level.operator?_eq_some_iff.1 hop
    obtain ⟨used, rfl, hd, hnr⟩ := h _ _ _ hrun
    obtain ⟨more, rfl, hm, hne⟩ :=
      ih (.fold hl hk hlevel hd) (Nat.max_le.2 ⟨hn, hnr⟩) hr
    exact ⟨token :: (used ++ more), by simp, by simpa using hm, hne⟩

theorem foldLeft_sound {level : BinaryOp.Level} {operand : Rule} {levels : Nat}
    (h : operand.Sound level.operands levels) :
    (foldLeft level operand).Sound (.binary level) levels := by
  intro tokens expr rest hr
  simp only [foldLeft] at hr
  split at hr
  · simp at hr
  · next left behind hrun =>
    obtain ⟨read, rfl, hd, hn⟩ := h _ _ _ hrun
    obtain ⟨more, rfl, hm, hne⟩ := extend_sound h (.single hd) hn hr
    exact ⟨read ++ more, by simp, hm, hne⟩

theorem binary_sound {operand : Rule} {levels : Nat} (h : operand.Sound .unary levels) :
    operand.binary.Sound (.binary .equality) levels :=
  foldLeft_sound (foldLeft_sound (foldLeft_sound (foldLeft_sound h)))

theorem groupingRun_sound {finish opening : Token} {inner : Rule} {levels : Nat}
    (h : inner.Sound (.binary .equality) levels) (ho : opening.kind = .symbol .leftParen)
    {tokens rest : List Token} {expr : Expr}
    (hr : groupingRun finish inner tokens = (.ok expr, rest)) :
    ∃ read, tokens = read ++ rest ∧ Derives .primary (opening :: read) expr ∧
      expr.nesting ≤ levels + 1 := by
  unfold groupingRun at hr
  split at hr
  · simp at hr
  · simp at hr
  · next expr' closing behind hrun =>
    obtain ⟨read, rfl, hd, hn⟩ := h _ _ _ hrun
    split at hr
    · next hc =>
      obtain ⟨rfl, rfl⟩ : _ = expr ∧ _ = rest := by simpa using hr
      exact ⟨read ++ [closing], by simp, .grouping ho hc hd, Nat.succ_le_succ hn⟩
    · simp at hr

theorem operandRun_sound {finish : Token} {deeper? : Option Rule} {levels : Nat}
    (h : ∀ deeper ∈ deeper?, ∃ inner, levels = inner + 1 ∧ deeper.Sound .unary inner)
    {tokens rest : List Token} {expr : Expr}
    (hr : operandRun finish deeper? tokens = (.ok expr, rest)) :
    ∃ read, tokens = read ++ rest ∧ Derives .unary read expr ∧ expr.nesting ≤ levels := by
  cases tokens with
  | nil => simp [operandRun_nil] at hr
  | cons token tokens =>
    rw [operandRun_cons] at hr
    cases hf : token.front with
    | operator op =>
      cases deeper? with
      | none => simp [hf] at hr
      | some deeper =>
        obtain ⟨inner, rfl, hs⟩ := h deeper rfl
        simp only [hf] at hr
        split at hr
        · simp at hr
        · next operand behind hrun =>
          obtain ⟨rfl, rfl⟩ : _ = expr ∧ _ = rest := by simpa using hr
          obtain ⟨read, rfl, hd, hn⟩ := hs _ _ _ hrun
          exact ⟨token :: read, rfl, .unary (Token.front_eq_operator_iff.1 hf) hd,
            Nat.succ_le_succ hn⟩
    | opening =>
      cases deeper? with
      | none => simp [hf] at hr
      | some deeper =>
        obtain ⟨inner, rfl, hs⟩ := h deeper rfl
        simp only [hf] at hr
        obtain ⟨read, rfl, hd, hn⟩ :=
          groupingRun_sound (binary_sound hs) (Token.front_eq_opening_iff.1 hf) hr
        exact ⟨token :: read, rfl, .primary hd, hn⟩
    | value value =>
      obtain ⟨rfl, rfl⟩ : _ = expr ∧ _ = rest := by simpa [hf] using hr
      exact ⟨[token], rfl, .primary (.literal (Token.front_eq_value_iff.1 hf)), Nat.zero_le _⟩
    | _ => simp [hf] at hr

theorem operand_sound (finish : Token) (levels : Nat) :
    (operand finish levels).Sound .unary levels := by
  induction levels with
  | zero => exact fun _ _ _ => operandRun_sound (by simp)
  | succ levels ih => exact fun _ _ _ => operandRun_sound (by simpa using ih)

theorem expression_sound (finish : Token) (levels : Nat) :
    (expression finish levels).Sound (.binary .equality) levels :=
  binary_sound (operand_sound finish levels)

/-! ## Success stops where no operator goes on -/

/-- A rule that succeeds stops in front of a token that its stratum cannot go on with. -/
def Stops (rule : Rule) (s : Stratum) : Prop :=
  ∀ tokens expr rest, rule.run tokens = (.ok expr, rest) → s.Clear rest

theorem extend_stops {level : BinaryOp.Level} {operand : Rule} (h : operand.Stops level.operands)
    {tokens rest : List Token} {left expr : Expr} (ht : level.operands.Clear tokens)
    (hr : extend level operand left tokens = (.ok expr, rest)) :
    (Stratum.binary level).Clear rest := by
  fun_induction extend level operand left tokens with
  | case1 =>
    simp only [Prod.mk.injEq] at hr
    rw [← hr.2]
    exact Stratum.clear_nil _
  | case2 left token tokens hop =>
    simp only [Prod.mk.injEq] at hr
    rw [← hr.2]
    exact ht.of_operator? hop
  | case3 => simp at hr
  | case4 left token tokens op hop right behind hrun ih => exact ih (h _ _ _ hrun) hr

theorem foldLeft_stops {level : BinaryOp.Level} {operand : Rule}
    (h : operand.Stops level.operands) : (foldLeft level operand).Stops (.binary level) := by
  intro tokens expr rest hr
  simp only [foldLeft] at hr
  split at hr
  · simp at hr
  · next left behind hrun => exact extend_stops h (h _ _ _ hrun) hr

theorem binary_stops (operand : Rule) : operand.binary.Stops (.binary .equality) :=
  foldLeft_stops (foldLeft_stops (foldLeft_stops (foldLeft_stops
    fun _ _ rest _ => Stratum.clear_unary rest)))

end Rule
end LoxFrontEnd
