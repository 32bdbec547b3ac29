import LoxFrontEnd.Proofs.Grammar.Pushdown

/-! # Parsing by position

A parser that keeps the whole list of tokens and moves a position over it, as rules call each
other. It looks at tokens by their position, counts its nesting up and down, and reads a phrase
or gives up in the middle of it. `none` stands for a look at a position where there is no token,
and for calls that nest deeper than they are given leave to.

In front of the tokens that a rule is given (`facing`), the parser has the answer of the rule, is
in front of what the rule leaves, and is as deep as before (`Does`). So neither case of `none`
comes up, and parsing by position is parsing a stream (`parse_facing`). -/

namespace LoxFrontEnd
set_option autoImplicit false

/-- A parser that keeps all of its tokens, the position of the token it has come to, and the
number of unary operators and groupings it is inside of. -/
structure Parser where
  tokens : List Token
  position : Nat
  depth : Nat
  deriving DecidableEq

/-- A tree, or the token that is in the way and the message about it. -/
abbrev Answer := Except (Token × String) Expr

/-- The kinds of the operators of a level, in the order in which they are tried. -/
def BinaryOp.Level.kinds : BinaryOp.Level → List Kind
  | equality => [.symbol .bangEqual, .symbol .equalEqual]
  | comparison => [.symbol .greater, .symbol .greaterEqual, .symbol .less, .symbol .lessEqual]
  | term => [.symbol .minus, .symbol .plus]
  | factor => [.symbol .slash, .symbol .star]

namespace Parser

/-- The position is zero. Tokens that do not end with an end mark get one. -/
def new (tokens : List Token) : Parser :=
  match tokens.getLast? with
  | none => ⟨[.eof 1], 0, 0⟩
  | some last => ⟨if last.isEof then tokens else tokens ++ [.eof last.line], 0, 0⟩

/-! ## Looking at tokens -/

def peek? (parser : Parser) : Option Token := parser.tokens[parser.position]?

def previous? (parser : Parser) : Option Token := parser.tokens[parser.position - 1]?

def check? (parser : Parser) (kind : Kind) : Option Bool := do
  let token ← parser.peek?
  return !token.isEof && token.kind = kind

/-- Moves on by one token, but never past an end mark. -/
def advance? (parser : Parser) : Option (Token × Parser) := do
  let token ← parser.peek?
  if token.isEof then
    return (token, parser)
  else
    let behind := { parser with position := parser.position + 1 }
    return (← behind.previous?, behind)

/-- Moves on if the token is of one of the kinds. -/
def match? (parser : Parser) : List Kind → Option (Bool × Parser)
  | [] => some (false, parser)
  | kind :: kinds => do
    if ← parser.check? kind then
      return (true, (← parser.advance?).2)
    else
      parser.match? kinds

/-! ## The rules -/

/-- One level further in, as long as there are not 128 of them. -/
def deeper? (parser : Parser) : Option (Except (Token × String) Parser) :=
  if parser.depth < 128 then
    some (.ok { parser with depth := parser.depth + 1 })
  else do
    return .error (← parser.previous?, "Expression nests too deeply.")

def shallower (parser : Parser) : Parser := { parser with depth := parser.depth - 1 }

/-- What comes of a grouping when its inside has been read. -/
def close? (result : Answer) (parser : Parser) : Option (Answer × Parser) :=
  match result with
  | .error refusal => some (.error refusal, parser)
  | .ok expr => do
    if ← parser.check? (.symbol .rightParen) then
      return (.ok (.grouping expr), (← parser.advance?).2)
    else
      return (.error (← parser.peek?, "Expect ')' after expression."), parser)

/-- What is to be read: a phrase of a stratum, or the rest of a phrase of a level whose left
operand has been read. -/
inductive Task
  | phrase (s : Stratum)
  | more (level : BinaryOp.Level) (left : Expr)

/-- Does a task, rule by rule, with calls that nest at most `calls` deep. A rule that gives up
leaves the position where it came to. -/
def read : (calls : Nat) → Task → Parser → Option (Answer × Parser)
  | 0, _, _ => none
  | calls + 1, .phrase (.binary level), parser => do
    match ← read calls (.phrase level.operands) parser with
    | (.error refusal, parser) => return (.error refusal, parser)
    | (.ok left, parser) => read calls (.more level left) parser
  | calls + 1, .more level left, parser => do
    let (found, parser) ← parser.match? level.kinds
    if found then
      let token ← parser.previous?
      match BinaryOp.ofKind? token.kind with
      | none => return (.error (token, "Expect binary operator."), parser)
      | some op =>
        match ← read calls (.phrase level.operands) parser with
        | (.error refusal, parser) => return (.error refusal, parser)
        | (.ok right, parser) => read calls (.more level (.binary left op right)) parser
    else
      return (.ok left, parser)
  | calls + 1, .phrase .unary, parser => do
    let (found, parser) ← parser.match? [.symbol .bang, .symbol .minus]
    if found then
      let token ← parser.previous?
      match UnaryOp.ofKind? token.kind with
      | none => return (.error (token, "Expect unary operator."), parser)
      | some op =>
        match ← parser.deeper? with
        | .error refusal => return (.error refusal, parser)
        | .ok inner =>
          let (right, parser) ← read calls (.phrase .unary) inner
          return (right.map (.unary op), parser.shallower)
    else
      read calls (.phrase .primary) parser
  | calls + 1, .phrase .primary, parser => do
    let (found, parser) ← parser.match? [.keyword .falseWord]
    if found then
      return (.ok (.literal (.bool false)), parser)
    let (found, parser) ← parser.match? [.keyword .trueWord]
    if found then
      return (.ok (.literal (.bool true)), parser)
    let (found, parser) ← parser.match? [.keyword .nilWord]
    if found then
      return (.ok (.literal .nil), parser)
    let (found, parser) ← parser.match? [.number, .string]
    if found then
      let token ← parser.previous?
      match token.literal with
      | some literal => return (.ok (.literal literal.toValue), parser)
      | none => return (.error (token, "Expect literal value."), parser)
    let (found, parser) ← parser.match? [.symbol .leftParen]
    if found then
      match ← parser.deeper? with
      | .error refusal => return (.error refusal, parser)
      | .ok inner =>
        let (result, parser) ← read calls (.phrase (.binary .equality)) inner
        return ← close? result parser.shallower
    return (.error (← parser.peek?, "Expect expression."), parser)

/-- Reads one expression that reaches to an end mark. -/
def parse (parser : Parser) : Option (Answer × Parser) := do
  match ← read (6 * parser.tokens.length + 6) (.phrase (.binary .equality)) parser with
  | (.error refusal, parser) => return (.error refusal, parser)
  | (.ok expr, parser) =>
    let token ← parser.peek?
    if token.isEof then
      return (.ok expr, parser)
    else
      return (.error (token, "Expect end of expression."), parser)

/-! ## Standing in front of tokens -/

/-- The parser in front of the last of its tokens before the first end mark. -/
def facing (tokens : List Token) (depth : Nat) (rest : List Token) : Parser :=
  ⟨tokens, (beforeEof tokens).length - rest.length, depth⟩

section
variable {tokens rest : List Token} {finish token : Token} {depth : Nat}

theorem eq_beforeEof_append (hf : tokens.find? Token.isEof = some finish) :
    ∃ behind, tokens = beforeEof tokens ++ finish :: behind := by
  obtain ⟨hfinish, before, behind, hsplit, hbefore⟩ := List.find?_eq_some_iff_append.1 hf
  have hfront : beforeEof tokens = before := by
    rw [hsplit, beforeEof, List.takeWhile_append_of_pos hbefore]
    simp [hfinish]
  exact ⟨behind, by rw [hfront, ← hsplit]⟩

/-- What is behind the position: the tokens it is in front of, and the end mark. -/
theorem drop_position (hf : tokens.find? Token.isEof = some finish)
    (hr : rest <:+ beforeEof tokens) :
    ∃ behind, tokens.drop ((beforeEof tokens).length - rest.length) =
      rest ++ finish :: behind := by
  obtain ⟨behind, hsplit⟩ := eq_beforeEof_append hf
  obtain ⟨taken, htaken⟩ := hr
  refine ⟨behind, ?_⟩
  calc tokens.drop ((beforeEof tokens).length - rest.length)
      = (beforeEof tokens ++ finish :: behind).drop ((beforeEof tokens).length - rest.length) :=
        congrArg (List.drop _) hsplit
    _ = rest ++ finish :: behind := by
        rw [← htaken, List.length_append, Nat.add_sub_cancel, List.append_assoc, List.drop_left]

theorem peek?_facing (hf : tokens.find? Token.isEof = some finish)
    (hr : rest <:+ beforeEof tokens) :
    (facing tokens depth rest).peek? = some (rest.head?.getD finish) := by
  obtain ⟨behind, hdrop⟩ := drop_position hf hr
  rw [peek?, facing, ← List.head?_drop, hdrop]
  cases rest <;> rfl

theorem previous?_facing (hf : tokens.find? Token.isEof = some finish)
    (hr : token :: rest <:+ beforeEof tokens) :
    (facing tokens depth rest).previous? = some token := by
  have h : (facing tokens depth (token :: rest)).peek? = some token := peek?_facing hf hr
  rw [peek?, facing, List.length_cons, Nat.sub_add_eq] at h
  exact h

theorem not_isEof_of_suffix (hr : token :: rest <:+ beforeEof tokens) : token.isEof = false := by
  have hm : token ∈ beforeEof tokens := hr.subset List.mem_cons_self
  simpa using TokenStream.not_isEof_of_mem_ofList hm

theorem check?_nil (hf : tokens.find? Token.isEof = some finish) (kind : Kind) :
    (facing tokens depth []).check? kind = some false := by
  rw [check?, peek?_facing hf (List.nil_suffix), List.head?_nil, Option.getD_none]
  simp [List.find?_some hf]

theorem check?_cons (hf : tokens.find? Token.isEof = some finish)
    (hr : token :: rest <:+ beforeEof tokens) (kind : Kind) :
    (facing tokens depth (token :: rest)).check? kind = some (token.kind = kind : Bool) := by
  rw [check?, peek?_facing hf hr]
  simp [not_isEof_of_suffix hr]

theorem advance?_cons (hf : tokens.find? Token.isEof = some finish)
    (hr : token :: rest <:+ beforeEof tokens) :
    (facing tokens depth (token :: rest)).advance? = some (token, facing tokens depth rest) := by
  have hlen := hr.length_le
  rw [List.length_cons] at hlen
  have hnext : (⟨tokens, (facing tokens depth (token :: rest)).position + 1, depth⟩ : Parser) =
      facing tokens depth rest := by
    simp only [facing, List.length_cons, Parser.mk.injEq, true_and, and_true]
    omega
  rw [advance?, peek?_facing hf hr]
  simp only [List.head?_cons, Option.getD_some, Option.bind_eq_bind, Option.bind_some,
    not_isEof_of_suffix hr, Bool.false_eq_true, if_false]
  change (previous? ⟨tokens, _, depth⟩).bind _ = _
  rw [hnext, previous?_facing hf hr]
  exact congrArg (fun parser => some (token, parser)) hnext

theorem match?_nil (hf : tokens.find? Token.isEof = some finish) (kinds : List Kind) :
    (facing tokens depth []).match? kinds = some (false, facing tokens depth []) := by
  induction kinds with
  | nil => rfl
  | cons kind kinds ih => rw [match?, check?_nil hf]; exact ih

theorem match?_cons (hf : tokens.find? Token.isEof = some finish)
    (hr : token :: rest <:+ beforeEof tokens) (kinds : List Kind) :
    (facing tokens depth (token :: rest)).match? kinds =
      if token.kind ∈ kinds then some (true, facing tokens depth rest)
      else some (false, facing tokens depth (token :: rest)) := by
  induction kinds with
  | nil => rfl
  | cons kind kinds ih =>
    rw [match?, check?_cons hf hr]
    by_cases h : token.kind = kind
    · simp [h, advance?_cons hf hr]
    · simp [h, ih]

end

/-! ## The rules by position -/

def answer : Except ParseError Expr → Answer
  | .ok expr => .ok expr
  | .error error => .error (error.token, error.message)

/-- How deep calls nest before the task takes a token. -/
def Task.rank : Task → Nat
  | phrase s => 5 - s.strength
  | more .. => 0

theorem Task.rank_operands (level : BinaryOp.Level) :
    (phrase level.operands).rank + 1 = (phrase (.binary level)).rank ∧
      1 ≤ (phrase level.operands).rank ∧ (phrase level.operands).rank ≤ 4 := by
  cases level <;> decide

/-- A task, started in front of tokens, is done as a rule reads them: with its answer, in front of
what it leaves, and as deep as before. -/
def Does (task : Task) (run : List Token → Except ParseError Expr × List Token)
    (tokens : List Token) (depth : Nat) : Prop :=
  ∀ calls rest, rest <:+ beforeEof tokens → 6 * rest.length + task.rank < calls →
    read calls task (facing tokens depth rest) =
      some (answer (run rest).1, facing tokens depth (run rest).2)

theorem mem_kinds_iff {level : BinaryOp.Level} {kind : Kind} :
    kind ∈ level.kinds ↔ (level.operator? kind).isSome := by
  constructor
  · have hall : ∀ kind ∈ level.kinds, (level.operator? kind).isSome := by
      cases level <;> decide
    exact hall kind
  · intro h
    obtain ⟨op, hop⟩ := Option.isSome_iff_exists.1 h
    obtain ⟨rfl, rfl⟩ := BinaryOp.Level.operator?_eq_some_iff.1 hop
    cases op <;> decide

section
variable {tokens : List Token} {finish : Token} {depth : Nat}

/-- An operator of the level has been found: its right operand is read, and then the rest. -/
theorem read_more_operator (hf : tokens.find? Token.isEof = some finish)
    {level : BinaryOp.Level} {op : BinaryOp} {token : Token} {rest : List Token} (left : Expr)
    (hr : token :: rest <:+ beforeEof tokens) (hop : level.operator? token.kind = some op)
    (calls : Nat) :
    read (calls + 1) (.more level left) (facing tokens depth (token :: rest)) =
      (read calls (.phrase level.operands) (facing tokens depth rest)).bind fun
        | (.error refusal, parser) => some (.error refusal, parser)
        | (.ok right, parser) => read calls (.more level (.binary left op right)) parser := by
  have hk : token.kind ∈ level.kinds := by simp [mem_kinds_iff, hop]
  have hkind : BinaryOp.ofKind? token.kind = some op :=
    BinaryOp.ofKind?_eq_some_iff.2 (BinaryOp.Level.operator?_eq_some_iff.1 hop).1
  rw [read, match?_cons hf hr, if_pos hk]
  simp only [Option.bind_eq_bind, Option.bind_some, if_true, previous?_facing hf hr, hkind]
  rfl

theorem more_does (hf : tokens.find? Token.isEof = some finish) {level : BinaryOp.Level}
    {operand : Rule} (h : Does (.phrase level.operands) operand.run tokens depth) (left : Expr) :
    Does (.more level left) (Rule.extend level operand left) tokens depth := by
  intro calls rest hr hcalls
  have hrank := Task.rank_operands level
  rw [Task.rank] at hcalls
  -- One more operator is one more round of the loop, behind what its right operand leaves.
  fun_induction Rule.extend level operand left rest generalizing calls with
  | case1 =>
    obtain _ | calls := calls
    · omega
    rw [read, match?_nil hf]
    rfl
  | case2 left token rest hop =>
    obtain _ | calls := calls
    · omega
    have hk : token.kind ∉ level.kinds := by simp [mem_kinds_iff, hop]
    rw [read, match?_cons hf hr, if_neg hk]
    rfl
  | case3 left token rest op hop error behind hrun =>
    rw [List.length_cons] at hcalls
    obtain _ | calls := calls
    · omega
    have hrest : rest <:+ beforeEof tokens := (List.suffix_cons ..).trans hr
    rw [read_more_operator hf left hr hop, h calls rest hrest (by omega), hrun]
    rfl
  | case4 left token rest op hop right behind hrun ih =>
    rw [List.length_cons] at hcalls
    obtain _ | calls := calls
    · omega
    have hrest : rest <:+ beforeEof tokens := (List.suffix_cons ..).trans hr
    have hbehind := operand.suffix rest
    rw [hrun] at hbehind
    have hlength : behind.length ≤ rest.length := hbehind.length_le
    rw [read_more_operator hf left hr hop, h calls rest hrest (by omega), hrun]
    exact ih calls (hbehind.trans hrest) (by omega)

theorem foldLeft_does (hf : tokens.find? Token.isEof = some finish) {level : BinaryOp.Level}
    {operand : Rule} (h : Does (.phrase level.operands) operand.run tokens depth) :
    Does (.phrase (.binary level)) (Rule.foldLeft level operand).run tokens depth := by
  intro calls rest hr hcalls
  have hrank := Task.rank_operands level
  have hbehind := operand.suffix rest
  obtain _ | calls := calls
  · omega
  rw [read, h calls rest hr (by omega)]
  simp only [Rule.foldLeft]
  split
  · next error behind hrun => rw [hrun]; rfl
  · next left behind hrun =>
    rw [hrun] at hbehind ⊢
    have hlength : behind.length ≤ rest.length := hbehind.length_le
    exact more_does hf h left calls behind (hbehind.trans hr) (by rw [Task.rank]; omega)

theorem binary_does (hf : tokens.find? Token.isEof = some finish) {operand : Rule}
    (h : Does (.phrase .unary) operand.run tokens depth) :
    Does (.phrase (.binary .equality)) operand.binary.run tokens depth :=
  foldLeft_does hf (foldLeft_does hf (foldLeft_does hf (foldLeft_does hf h)))

theorem close?_eq (hf : tokens.find? Token.isEof = some finish) (inner : Rule)
    {rest : List Token} (hr : rest <:+ beforeEof tokens) :
    close? (answer (inner.run rest).1) (facing tokens depth (inner.run rest).2) =
      some (answer (Rule.groupingRun finish inner rest).1,
        facing tokens depth (Rule.groupingRun finish inner rest).2) := by
  have hbehind := inner.suffix rest
  unfold Rule.groupingRun
  split
  · next error behind hrun => rw [hrun]; rfl
  · next expr hrun =>
    rw [hrun]
    simp only [close?, answer, check?_nil hf, peek?_facing hf List.nil_suffix]
    rfl
  · next expr closing behind hrun =>
    rw [hrun] at hbehind ⊢
    have hr' := hbehind.trans hr
    simp only [close?, answer, check?_cons hf hr', advance?_cons hf hr', peek?_facing hf hr']
    by_cases hk : closing.kind = .symbol .rightParen
    · simp [hk]
    · simp [hk, ParseError.message, ParseFault.message]

/-! ## One level further in -/

/-- The rule for a task one level further in is there as long as the parser can go deeper. -/
structure Deepens (task : Task) (inner? : Option Rule) (tokens : List Token) (depth : Nat) :
    Prop where
  limit : inner? = none → ¬ depth < 128
  inner : ∀ inner, inner? = some inner → depth < 128 ∧ Does task inner.run tokens (depth + 1)

theorem Deepens.binary (hf : tokens.find? Token.isEof = some finish) {deeper? : Option Rule}
    (h : Deepens (.phrase .unary) deeper? tokens depth) :
    Deepens (.phrase (.binary .equality)) (deeper?.map Rule.binary) tokens depth where
  limit hn := h.limit (Option.map_eq_none_iff.1 hn)
  inner := by
    intro inner hi
    obtain ⟨deeper, hd, rfl⟩ := Option.map_eq_some_iff.1 hi
    obtain ⟨hlt, hdoes⟩ := h.inner deeper hd
    exact ⟨hlt, binary_does hf hdoes⟩

theorem deeper?_of_lt (h : depth < 128) (rest : List Token) :
    (facing tokens depth rest).deeper? = some (.ok (facing tokens (depth + 1) rest)) :=
  if_pos h

theorem deeper?_of_not_lt (hf : tokens.find? Token.isEof = some finish) (h : ¬ depth < 128)
    {token : Token} {rest : List Token} (hr : token :: rest <:+ beforeEof tokens) :
    (facing tokens depth rest).deeper? =
      some (.error (token, "Expression nests too deeply.")) := by
  have hprevious : (facing tokens depth rest).previous? = some token := previous?_facing hf hr
  rw [deeper?, hprevious]
  exact if_neg h

theorem shallower_facing (rest : List Token) :
    (facing tokens (depth + 1) rest).shallower = facing tokens depth rest := rfl

theorem primary_does (hf : tokens.find? Token.isEof = some finish) {inner? : Option Rule}
    (h : Deepens (.phrase (.binary .equality)) inner? tokens depth) :
    Does (.phrase .primary) (Rule.primaryRun finish inner?) tokens depth := by
  intro calls rest hr hcalls
  obtain _ | calls := calls
  · omega
  cases rest with
  | nil =>
    rw [read]
    simp [match?_nil hf, peek?_facing hf hr, Rule.primaryRun, answer, ParseError.message,
      ParseFault.message]
  | cons token rest =>
    rw [read]
    simp only [Rule.primaryRun]
    -- The kinds are tried one after another: in each case all those before it do not match.
    split
    · next hk => simp [match?_cons hf hr, hk, answer]
    · next hk => simp [match?_cons hf hr, hk, answer]
    · next hk => simp [match?_cons hf hr, hk, answer]
    · next hk =>
      cases hl : token.literal <;>
        simp [match?_cons hf hr, hk, answer, previous?_facing hf hr, hl, ParseError.message,
          ParseFault.message]
    · next hk =>
      cases hl : token.literal <;>
        simp [match?_cons hf hr, hk, answer, previous?_facing hf hr, hl, ParseError.message,
          ParseFault.message]
    · next hk =>
      cases hi : inner? with
      | none =>
        simp [match?_cons hf hr, hk, deeper?_of_not_lt hf (h.limit hi) hr, answer,
          ParseError.message, ParseFault.message]
      | some inner =>
        obtain ⟨hlt, hdoes⟩ := h.inner inner hi
        have hrest : rest <:+ beforeEof tokens := (List.suffix_cons ..).trans hr
        have hread := hdoes calls rest hrest
          (by rw [List.length_cons] at hcalls; change _ + 5 < _; omega)
        simp [match?_cons hf hr, hk, deeper?_of_lt hlt, hread, shallower_facing,
          close?_eq hf inner hrest]
    · next h1 h2 h3 h4 h5 h6 =>
      simp only [imp_false] at h1 h2 h3 h4 h5 h6
      simp [match?_cons hf hr, h1, h2, h3, h4, h5, h6, answer, peek?_facing hf hr,
        ParseError.message, ParseFault.message]

theorem mem_signs_iff {kind : Kind} :
    kind ∈ [Kind.symbol .bang, Kind.symbol .minus] ↔ (UnaryOp.ofKind? kind).isSome := by
  constructor
  · have hall : ∀ kind ∈ [Kind.symbol .bang, Kind.symbol .minus],
      (UnaryOp.ofKind? kind).isSome := by decide
    exact hall kind
  · intro h
    obtain ⟨op, hop⟩ := Option.isSome_iff_exists.1 h
    obtain rfl := UnaryOp.ofKind?_eq_some_iff.1 hop
    cases op <;> decide

theorem operand_does (hf : tokens.find? Token.isEof = some finish) {deeper? : Option Rule}
    (h : Deepens (.phrase .unary) deeper? tokens depth) :
    Does (.phrase .unary) (Rule.operandRun finish deeper?) tokens depth := by
  intro calls rest hr hcalls
  change 6 * rest.length + 1 < calls at hcalls
  obtain _ | calls := calls
  · omega
  have hprimary : read calls (.phrase .primary) (facing tokens depth rest) = _ :=
    primary_does hf (h.binary hf) calls rest hr (Nat.lt_of_succ_lt_succ hcalls)
  cases rest with
  | nil =>
    rw [read, match?_nil hf]
    exact hprimary
  | cons token rest =>
    rw [read]
    cases hop : UnaryOp.ofKind? token.kind with
    | none =>
      have hk : token.kind ∉ [Kind.symbol .bang, Kind.symbol .minus] := by
        simp only [mem_signs_iff, hop, Option.isSome_none, Bool.false_eq_true, not_false_iff]
      rw [match?_cons hf hr, if_neg hk]
      simp only [Rule.operandRun, hop]
      exact hprimary
    | some op =>
      have hk : token.kind ∈ [Kind.symbol .bang, Kind.symbol .minus] := by
        rw [mem_signs_iff, hop]; rfl
      rw [match?_cons hf hr, if_pos hk]
      simp only [Rule.operandRun, Option.bind_eq_bind, Option.bind_some, if_true,
        previous?_facing hf hr, hop]
      cases hd : deeper? with
      | none =>
        rw [deeper?_of_not_lt hf (h.limit hd) hr]
        rfl
      | some deeper =>
        obtain ⟨hlt, hdoes⟩ := h.inner deeper hd
        have hread := hdoes calls rest ((List.suffix_cons ..).trans hr)
          (by rw [List.length_cons] at hcalls; change _ + 1 < _; omega)
        rw [deeper?_of_lt hlt]
        simp only [Option.bind_some, hread, shallower_facing]
        rcases deeper.run rest with ⟨_ | _, behind⟩ <;> rfl

/-- The depth and the levels that are left to the rule make up the nesting limit. -/
theorem unary_does (hf : tokens.find? Token.isEof = some finish) (levels : Nat)
    (h : depth + levels = 128) :
    Does (.phrase .unary) (Rule.operand finish levels).run tokens depth := by
  induction levels generalizing depth with
  | zero => exact operand_does hf ⟨fun _ => by omega, by simp⟩
  | succ levels ih =>
    refine operand_does hf ⟨by simp, ?_⟩
    intro inner hi
    obtain rfl := Option.some.inj hi
    exact ⟨by omega, ih (by omega)⟩

theorem expression_does (hf : tokens.find? Token.isEof = some finish) :
    Does (.phrase (.binary .equality)) (Rule.expression finish nestingLimit).run tokens 0 :=
  binary_does hf (unary_does hf nestingLimit rfl)

end

/-! ## Parsing -/

theorem parse_facing {tokens : List Token} {stream : TokenStream}
    (hf : tokens.find? Token.isEof = some stream.finish)
    (hr : stream.tokens <:+ beforeEof tokens) :
    (facing tokens 0 stream.tokens).parse =
      some (answer stream.parse.1, facing tokens 0 stream.parse.2.tokens) := by
  have hbehind := (Rule.expression stream.finish nestingLimit).suffix stream.tokens
  have hlength : stream.tokens.length ≤ tokens.length :=
    Nat.le_trans hr.length_le (List.takeWhile_sublist _).length_le
  have hread := expression_does hf (6 * tokens.length + 6) stream.tokens hr
    (by change _ + 5 < _; omega)
  rw [parse, show (facing tokens 0 stream.tokens).tokens = tokens from rfl, hread,
    TokenStream.parse]
  split
  · next error rest hrun => rw [hrun]; rfl
  · next expr hrun =>
    rw [hrun]
    simp [answer, peek?_facing hf List.nil_suffix, List.find?_some hf]
  · next expr token rest hrun =>
    rw [hrun] at hbehind ⊢
    have hr' := hbehind.trans hr
    simp [answer, peek?_facing hf hr', not_isEof_of_suffix hr', ParseError.message,
      ParseFault.message]

end Parser
end LoxFrontEnd
