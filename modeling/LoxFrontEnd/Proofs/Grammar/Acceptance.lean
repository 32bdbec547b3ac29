import LoxFrontEnd.Proofs.Grammar.Reading

/-! # Parsing accepts the grammar

Tokens that derive a tree are read as that tree by the rule of their stratum, whatever follows
that cannot go on with it (`Derives.run_eq`). With the soundness of the rules this makes parsing
accept exactly what the grammar derives within the nesting limit (`parse_eq_ok_iff_derives`), and
since a rule has one result, no list of tokens derives two trees (`Derives.unique`). -/

namespace LoxFrontEnd
set_option autoImplicit false

namespace Rule

def ofStratum (operand : Rule) : Stratum → Rule
  | .binary .equality =>
    foldLeft .equality (foldLeft .comparison (foldLeft .term (foldLeft .factor operand)))
  | .binary .comparison => foldLeft .comparison (foldLeft .term (foldLeft .factor operand))
  | .binary .term => foldLeft .term (foldLeft .factor operand)
  | .binary .factor => foldLeft .factor operand
  | .unary | .primary => operand

theorem ofStratum_binary (operand : Rule) (level : BinaryOp.Level) :
    operand.ofStratum (.binary level) = foldLeft level (operand.ofStratum level.operands) := by
  cases level <;> rfl

/-- What the rule of a stratum makes of a tree it has read: a binary rule goes on. -/
def continued (operand : Rule) (expr : Expr) (rest : List Token) :
    Stratum → Except ParseError Expr × List Token
  | .binary level => extend level (operand.ofStratum level.operands) expr rest
  | .unary | .primary => (.ok expr, rest)

theorem extend_of_clear {level : BinaryOp.Level} {operand : Rule} {expr : Expr}
    {rest : List Token} (h : (Stratum.binary level).Clear rest) :
    extend level operand expr rest = (.ok expr, rest) := by
  cases rest with
  | nil => rw [extend]
  | cons token rest =>
    have hop : level.operator? token.kind = none := by
      rw [Option.eq_none_iff_forall_ne_some]
      intro op hop
      obtain ⟨hk, rfl⟩ := BinaryOp.Level.operator?_eq_some_iff.1 hop
      exact absurd (h token rfl op hk) (Nat.lt_irrefl _)
    rw [extend, hop]

theorem extend_operator {level : BinaryOp.Level} {operand : Rule} {left right : Expr}
    {token : Token} {op : BinaryOp} {rest behind : List Token}
    (hk : token.kind = .symbol op.symbol) (hlevel : op.level = level)
    (hr : operand.run rest = (.ok right, behind)) :
    extend level operand left (token :: rest) =
      extend level operand (.binary left op right) behind := by
  rw [extend, BinaryOp.Level.operator?_eq_some_iff.2 ⟨hk, hlevel⟩]
  simp only
  split
  · next h => simp [hr] at h
  · next h =>
    rw [hr] at h
    simp only [Prod.mk.injEq, Except.ok.injEq] at h
    rw [h.1, h.2]

theorem continued_of_clear {operand : Rule} {expr : Expr} {rest : List Token} {s : Stratum}
    (h : s.Clear rest) : operand.continued expr rest s = (.ok expr, rest) := by
  cases s with
  | binary level => exact extend_of_clear h
  | _ => rfl

end Rule

def Stratum.inner : Stratum → Stratum
  | .binary level => level.operands
  | s => s

theorem Stratum.strength_le_inner (s : Stratum) : s.strength ≤ s.inner.strength := by
  cases s with
  | binary level => rw [Stratum.inner, level.strength_operands]; exact Nat.le_succ _
  | _ => exact Nat.le_refl _

/-! ## Derivations are read -/

namespace Rule

theorem operand_run_value {finish token : Token} {value : Value} (levels : Nat)
    (rest : List Token) (h : token.value? = some value) :
    (operand finish levels).run (token :: rest) = (.ok (.literal value), rest) := by
  rw [operand_run, operandRun_cons, Token.front_eq_value_iff.2 h]

theorem operand_run_unary {finish token : Token} {op : UnaryOp} {levels : Nat} {expr : Expr}
    {rest behind : List Token} (h : token.kind = .symbol op.symbol)
    (hr : (operand finish levels).run rest = (.ok expr, behind)) :
    (operand finish (levels + 1)).run (token :: rest) = (.ok (.unary op expr), behind) := by
  rw [operand_run, operandRun_cons, Token.front_eq_operator_iff.2 h, deeper?]
  simp only [hr]

theorem operand_run_grouping {finish opening closing : Token} {levels : Nat} {expr : Expr}
    {rest behind : List Token} (ho : opening.kind = .symbol .leftParen)
    (hc : closing.kind = .symbol .rightParen)
    (hr : (expression finish levels).run rest = (.ok expr, closing :: behind)) :
    (operand finish (levels + 1)).run (opening :: rest) = (.ok (.grouping expr), behind) := by
  rw [operand_run, operandRun_cons, Token.front_eq_opening_iff.2 ho, deeper?]
  rw [expression] at hr
  simp only [groupingRun, hr, hc, if_true]

end Rule

open Rule in
theorem Derives.run_eq_continued {s : Stratum} {read : List Token} {expr : Expr}
    (d : Derives s read expr) (finish : Token) {levels : Nat} (hn : expr.nesting ≤ levels)
    (rest : List Token) (hc : s.inner.Clear rest) :
    ((operand finish levels).ofStratum s).run (read ++ rest) =
      (operand finish levels).continued expr rest s := by
  -- A left operand is read by the same rule as the whole, so the statement says what the rule
  -- goes on with rather than where it ends.
  induction d generalizing levels rest with
  | @single level tokens expr d ih =>
    change level.operands.Clear rest at hc
    have hrun := ih hn rest (hc.mono (Stratum.strength_le_inner _))
    rw [continued_of_clear hc] at hrun
    simp only [ofStratum_binary, foldLeft, hrun]
    rfl
  | @fold level before behind token op left right dl hk hlevel dr ihl ihr =>
    change level.operands.Clear rest at hc
    have hnl : left.nesting ≤ levels := Nat.le_trans (Nat.le_max_left ..) hn
    have hnr : right.nesting ≤ levels := Nat.le_trans (Nat.le_max_right ..) hn
    have hright := ihr hnr rest (hc.mono (Stratum.strength_le_inner _))
    rw [continued_of_clear hc] at hright
    have hleft := ihl hnl (token :: behind ++ rest) (Stratum.clear_operator _ hk (by
      rw [Stratum.inner, level.strength_operands, hlevel]; exact Nat.lt_succ_self _))
    rw [List.append_assoc, hleft]
    exact extend_operator hk hlevel hright
  | @unary token op tokens expr hk d ih =>
    obtain ⟨inner, rfl⟩ := Nat.exists_eq_add_one.2 (Nat.lt_of_lt_of_le (Nat.succ_pos _) hn)
    exact operand_run_unary hk (ih (Nat.le_of_succ_le_succ hn) rest hc)
  | primary d ih => exact ih hn rest (hc.mono (by decide))
  | literal hv => exact operand_run_value levels rest hv
  | @grouping opening closing tokens expr ho hcl d ih =>
    obtain ⟨inner, rfl⟩ := Nat.exists_eq_add_one.2 (Nat.lt_of_lt_of_le (Nat.succ_pos _) hn)
    have hclear (s : Stratum) : s.Clear (closing :: rest) := Stratum.clear_closing rest hcl
    have hrun := ih (Nat.le_of_succ_le_succ hn) (closing :: rest) (hclear _)
    rw [continued_of_clear (hclear _)] at hrun
    rw [List.cons_append, List.append_assoc]
    exact operand_run_grouping ho hcl hrun

open Rule in
theorem Derives.run_eq {s : Stratum} {read : List Token} {expr : Expr}
    (d : Derives s read expr) (finish : Token) {levels : Nat} (hn : expr.nesting ≤ levels)
    {rest : List Token} (hc : s.Clear rest) :
    ((operand finish levels).ofStratum s).run (read ++ rest) = (.ok expr, rest) := by
  rw [d.run_eq_continued finish hn rest (hc.mono s.strength_le_inner), continued_of_clear hc]

theorem Derives.unique {s : Stratum} {tokens : List Token} {expr expr' : Expr}
    (d : Derives s tokens expr) (d' : Derives s tokens expr') : expr = expr' := by
  -- A rule with enough levels for both trees reads only one of them.
  have h := d.run_eq (.eof 0) (Nat.le_max_left expr.nesting expr'.nesting) s.clear_nil
  have h' := d'.run_eq (.eof 0) (Nat.le_max_right expr.nesting expr'.nesting) s.clear_nil
  rw [h] at h'
  simpa using h'

/-! ## Parsing -/

theorem TokenStream.parse_eq_ok_iff {stream : TokenStream} {expr : Expr} :
    stream.parse.1 = .ok expr ↔
      Derives (.binary .equality) stream.tokens expr ∧ expr.nesting ≤ nestingLimit := by
  constructor
  · intro h
    unfold TokenStream.parse at h
    split at h
    · simp at h
    · next expr' hrun =>
      obtain rfl : expr' = expr := by simpa using h
      obtain ⟨read, hread, hd, hn⟩ := Rule.expression_sound _ _ _ _ _ hrun
      rw [hread, List.append_nil]
      exact ⟨hd, hn⟩
    · simp at h
  · rintro ⟨hd, hn⟩
    have hrun := hd.run_eq stream.finish hn (Stratum.clear_nil _)
    rw [List.append_nil] at hrun
    change (Rule.expression stream.finish nestingLimit).run stream.tokens = (.ok expr, []) at hrun
    rw [TokenStream.parse, hrun]

/-- Parsing accepts exactly the grammar, with exactly its tree. -/
theorem parse_eq_ok_iff_derives (tokens : List Token) :
    (∀ expr, parse tokens = .ok expr ↔
      Derives (.binary .equality) (beforeEof tokens) expr ∧ expr.nesting ≤ 128) ∧
    (∀ expr, Derives (.binary .equality) (beforeEof tokens) expr →
      Yields (beforeEof tokens) expr ∧ expr.Stratified ∧
        ∀ expr', Derives (.binary .equality) (beforeEof tokens) expr' → expr' = expr) := by
  constructor
  · intro expr
    exact TokenStream.parse_eq_ok_iff
  · intro expr d
    exact ⟨d.yields, d.stratified, fun expr' d' => d'.unique d⟩

end LoxFrontEnd
