import LoxFrontEnd.Proofs.Grammar.Reading

/-! # Parse errors as stops of a pushdown automaton

An automaton reads a list of tokens once, from left to right. It keeps the open parentheses and
the unary operators that still wait for their operand on a stack, and knows whether an operand is
expected. Every rule of the grammar is a run of the automaton from its call to its return
(`Rule.Follows`), so parsing fails at the first token where the automaton cannot go on, with the
message of the automaton (`parse_error_first_stop`). -/

namespace LoxFrontEnd
set_option autoImplicit false

inductive Pending
  | opening
  | operator
  deriving DecidableEq

structure Pushdown where
  stack : List Pending
  wantsOperand : Bool
  deriving DecidableEq

namespace Pushdown

def start : Pushdown := ⟨[], true⟩

/-- A complete operand completes every unary operator that waits for it. -/
def complete (stack : List Pending) : Pushdown :=
  ⟨stack.dropWhile fun pending => pending = .operator, false⟩

def push (state : Pushdown) (pending : Pending) : Except String Pushdown :=
  if state.stack.length < 128 then .ok ⟨pending :: state.stack, true⟩
  else .error "Expression nests too deeply."

/-- Reads one token, or says why it cannot. The end of the tokens is a token too. -/
def step (state : Pushdown) (token : Token) : Except String Pushdown :=
  if state.wantsOperand then
    match token.front with
    | .operator _ => state.push .operator
    | .opening => state.push .opening
    | .value _ => .ok (complete state.stack)
    | .missing => .error "Expect literal value."
    | .foreign => .error "Expect expression."
  else if (BinaryOp.ofKind? token.kind).isSome then .ok ⟨state.stack, true⟩
  else match state.stack with
    | .opening :: below =>
      if token.kind = .symbol .rightParen then .ok (complete below)
      else .error "Expect ')' after expression."
    | _ => if token.isEof then .ok state else .error "Expect end of expression."

/-- Reads tokens up to the first one where it cannot go on. -/
def run (state : Pushdown) : List Token → Except (Token × String) Pushdown
  | [] => .ok state
  | token :: rest =>
    match state.step token with
    | .ok next => next.run rest
    | .error message => .error (token, message)

theorem run_cons_ok {state next : Pushdown} {token : Token} (h : state.step token = .ok next)
    (rest : List Token) : state.run (token :: rest) = next.run rest := by
  rw [run, h]

theorem run_cons_error {state : Pushdown} {token : Token} {message : String}
    (h : state.step token = .error message) (rest : List Token) :
    state.run (token :: rest) = .error (token, message) := by
  rw [run, h]

theorem run_eq_error {state : Pushdown} {tokens : List Token} {token : Token} {message : String}
    (h : state.run tokens = .error (token, message)) :
    ∃ before behind last, tokens = before ++ token :: behind ∧ state.run before = .ok last ∧
      last.step token = .error message := by
  induction tokens generalizing state with
  | nil => simp [run] at h
  | cons first rest ih =>
    cases hs : state.step first with
    | ok next =>
      rw [run_cons_ok hs] at h
      obtain ⟨before, behind, last, rfl, hb, hl⟩ := ih h
      exact ⟨first :: before, behind, last, rfl, by rw [run_cons_ok hs, hb], hl⟩
    | error text =>
      rw [run_cons_error hs] at h
      obtain ⟨rfl, rfl⟩ : first = token ∧ text = message := by simpa using h
      exact ⟨[], rest, state, rfl, rfl, hs⟩

/-! ## Single steps -/

theorem step_binary {stack : List Pending} {token : Token} {op : BinaryOp}
    (h : token.kind = .symbol op.symbol) : step ⟨stack, false⟩ token = .ok ⟨stack, true⟩ := by
  simp [step, BinaryOp.ofKind?_eq_some_iff.2 h]

theorem step_closing {below : List Pending} {token : Token}
    (h : token.kind = .symbol .rightParen) :
    step ⟨.opening :: below, false⟩ token = .ok (complete below) := by
  simp [step, h, BinaryOp.ofKind?]

theorem step_unclosed {below : List Pending} {token : Token}
    (hb : BinaryOp.ofKind? token.kind = none) (h : token.kind ≠ .symbol .rightParen) :
    step ⟨.opening :: below, false⟩ token = .error "Expect ')' after expression." := by
  simp [step, hb, h]

theorem step_end {token : Token} (h : token.isEof) : step ⟨[], false⟩ token = .ok ⟨[], false⟩ := by
  have hk : token.kind = .eof := by simpa [Token.isEof] using h
  simp [step, hk, BinaryOp.ofKind?, Token.isEof]

theorem step_trailing {token : Token} (hb : BinaryOp.ofKind? token.kind = none)
    (h : ¬ token.isEof) : step ⟨[], false⟩ token = .error "Expect end of expression." := by
  simp [step, hb, h]

end Pushdown

theorem Stratum.Clear.ofKind?_eq_none {token : Token} {rest : List Token}
    (h : (Stratum.binary .equality).Clear (token :: rest)) :
    BinaryOp.ofKind? token.kind = none := by
  rw [Option.eq_none_iff_forall_ne_some]
  intro op hop
  exact absurd (h token rfl op (BinaryOp.ofKind?_eq_some_iff.1 hop)) (Nat.not_lt_zero _)

theorem Token.ofKind?_of_isEof {token : Token} (h : token.isEof) :
    BinaryOp.ofKind? token.kind = none := by
  have hk : token.kind = .eof := by simpa [Token.isEof] using h
  rw [hk]; rfl

/-! ## Rules as runs -/

namespace Rule
open Pushdown

/-- The run that a rule called on a stack comes to: a failed rule stops the automaton, and a
successful one leaves it behind a complete operand. -/
def outcome (finish : Token) (stack : List Pending) :
    Except ParseError Expr × List Token → Except (Token × String) Pushdown
  | (.error error, _) => .error (error.token, error.message)
  | (.ok _, rest) => (complete stack).run (rest ++ [finish])

def Follows (rule : Rule) (finish : Token) (stack : List Pending) : Prop :=
  ∀ tokens, Pushdown.run ⟨stack, true⟩ (tokens ++ [finish]) = outcome finish stack (rule.run tokens)

theorem extend_follows {level : BinaryOp.Level} {operand : Rule} {finish : Token}
    {stack : List Pending} (h : operand.Follows finish stack)
    (hs : complete stack = ⟨stack, false⟩) (left : Expr) (tokens : List Token) :
    Pushdown.run ⟨stack, false⟩ (tokens ++ [finish]) =
      outcome finish stack (extend level operand left tokens) := by
  fun_induction extend level operand left tokens with
  | case1 | case2 => rw [outcome, hs]
  | case3 left token rest op hop error behind hrun =>
    obtain ⟨hk, -⟩ := BinaryOp.Level.operator?_eq_some_iff.1 hop
    rw [List.cons_append, run_cons_ok (step_binary hk), h rest, hrun]
  | case4 left token rest op hop right behind hrun ih =>
    obtain ⟨hk, -⟩ := BinaryOp.Level.operator?_eq_some_iff.1 hop
    rw [List.cons_append, run_cons_ok (step_binary hk), h rest, hrun, ← ih, outcome, hs]

theorem foldLeft_follows {level : BinaryOp.Level} {operand : Rule} {finish : Token}
    {stack : List Pending} (hs : complete stack = ⟨stack, false⟩)
    (h : operand.Follows finish stack) : (foldLeft level operand).Follows finish stack := by
  intro tokens
  rw [h tokens]
  simp only [foldLeft]
  split
  · next error behind hrun => simp only [hrun]
  · next left behind hrun => rw [hrun, outcome, hs, extend_follows h hs]

theorem binary_follows {operand : Rule} {finish : Token} {stack : List Pending}
    (hs : complete stack = ⟨stack, false⟩) (h : operand.Follows finish stack) :
    operand.binary.Follows finish stack :=
  foldLeft_follows hs (foldLeft_follows hs (foldLeft_follows hs (foldLeft_follows hs h)))

theorem groupingRun_follows {inner : Rule} {finish : Token} {stack : List Pending}
    (hf : finish.isEof) (hs : inner.Stops (.binary .equality))
    (h : inner.Follows finish (.opening :: stack)) (tokens : List Token) :
    Pushdown.run ⟨.opening :: stack, true⟩ (tokens ++ [finish]) =
      outcome finish stack (groupingRun finish inner tokens) := by
  rw [h tokens]
  unfold groupingRun
  split
  · next error behind hrun => simp only [hrun, outcome]
  · next expr hrun =>
    have hk : finish.kind ≠ .symbol .rightParen := by
      intro hk
      simp [Token.isEof, hk] at hf
    rw [hrun]
    exact run_cons_error (step_unclosed (Token.ofKind?_of_isEof hf) hk) []
  · next expr closing behind hrun =>
    rw [hrun]
    split
    · next hk => exact run_cons_ok (step_closing hk) _
    · next hk =>
      exact run_cons_error (step_unclosed (hs _ _ _ hrun).ofKind?_eq_none hk) _

theorem operandRun_follows {deeper? : Option Rule} {finish : Token} {stack : List Pending}
    (hf : finish.isEof) (hnone : deeper? = none → ¬ stack.length < 128)
    (hsome : ∀ deeper, deeper? = some deeper → stack.length < 128 ∧
      ∀ pending, deeper.Follows finish (pending :: stack))
    (tokens : List Token) :
    Pushdown.run ⟨stack, true⟩ (tokens ++ [finish]) =
      outcome finish stack (operandRun finish deeper? tokens) := by
  cases tokens with
  | nil =>
    have hfront : finish.front = .foreign := by
      have hk : finish.kind = .eof := by simpa [Token.isEof] using hf
      simp [Token.front, hk]
    exact run_cons_error (by simp [step, hfront, ParseError.message, ParseFault.message]) []
  | cons token rest =>
    rw [operandRun_cons, List.cons_append]
    cases hfront : token.front with
    | operator op =>
      cases deeper? with
      | none => exact run_cons_error (by simp [step, push, hfront, hnone rfl]; rfl) _
      | some deeper =>
        obtain ⟨hlt, hd⟩ := hsome deeper rfl
        have hstep : step ⟨stack, true⟩ token = .ok ⟨.operator :: stack, true⟩ := by
          simp [step, push, hfront, hlt]
        rw [run_cons_ok hstep, hd .operator rest]
        rcases hr : deeper.run rest with ⟨_ | _, behind⟩
        · simp only [hr, outcome]
        · simp only [hr, outcome]
          rfl
    | opening =>
      cases deeper? with
      | none => exact run_cons_error (by simp [step, push, hfront, hnone rfl]; rfl) _
      | some deeper =>
        obtain ⟨hlt, hd⟩ := hsome deeper rfl
        have hstep : step ⟨stack, true⟩ token = .ok ⟨.opening :: stack, true⟩ := by
          simp [step, push, hfront, hlt]
        rw [run_cons_ok hstep]
        exact groupingRun_follows hf (binary_stops deeper)
          (binary_follows rfl (hd .opening)) rest
    | value value => exact run_cons_ok (by simp [step, hfront]) _
    | missing => exact run_cons_error (by simp [step, hfront]; rfl) _
    | foreign => exact run_cons_error (by simp [step, hfront]; rfl) _

theorem operand_follows {finish : Token} (hf : finish.isEof) (levels : Nat)
    {stack : List Pending} (h : stack.length + levels = 128) :
    (operand finish levels).Follows finish stack := by
  intro tokens
  rw [operand_run]
  -- The levels left to the rule make up the nesting limit together with the stack.
  induction levels generalizing stack tokens with
  | zero =>
    refine operandRun_follows hf (fun _ => by omega) ?_ tokens
    intro deeper hd
    cases hd
  | succ levels ih =>
    refine operandRun_follows hf (fun hd => by cases hd) ?_ tokens
    intro deeper hd
    obtain rfl : operand finish levels = deeper := Option.some.inj hd
    refine ⟨by omega, fun pending tokens => ?_⟩
    rw [operand_run]
    exact ih (by rw [List.length_cons]; omega) tokens

theorem expression_follows {finish : Token} (hf : finish.isEof) :
    (expression finish nestingLimit).Follows finish [] :=
  binary_follows rfl (operand_follows hf nestingLimit rfl)

end Rule

/-! ## Parsing -/

namespace TokenStream

def terminated (stream : TokenStream) : List Token := stream.tokens ++ [stream.finish]

theorem isEof_finish_ofList (tokens : List Token) : (ofList tokens).finish.isEof := by
  simp only [ofList]
  cases hf : tokens.find? Token.isEof with
  | none => rfl
  | some token => exact List.find?_some hf

theorem not_isEof_of_mem_ofList {tokens : List Token} {token : Token}
    (h : token ∈ (ofList tokens).tokens) : ¬ token.isEof := by
  simpa using List.all_eq_true.1 List.all_takeWhile token h

theorem run_terminated {stream : TokenStream} (hf : stream.finish.isEof)
    (ht : ∀ token ∈ stream.tokens, ¬ token.isEof) :
    Pushdown.start.run stream.terminated =
      match stream.parse.1 with
      | .ok _ => .ok ⟨[], false⟩
      | .error error => .error (error.token, error.message) := by
  have hrun := Rule.expression_follows hf stream.tokens
  have hsuffix := (Rule.expression stream.finish nestingLimit).suffix stream.tokens
  change Pushdown.start.run stream.terminated = _ at hrun
  rw [hrun, parse]
  rcases hr : (Rule.expression stream.finish nestingLimit).run stream.tokens with ⟨_ | expr, rest⟩
  · rw [Rule.outcome]
  · rw [hr] at hsuffix
    have hclear := Rule.binary_stops _ _ _ _ hr
    cases rest with
    | nil => exact Pushdown.run_cons_ok (Pushdown.step_end hf) []
    | cons token rest =>
      have hmem : token ∈ stream.tokens := hsuffix.subset List.mem_cons_self
      exact Pushdown.run_cons_error
        (Pushdown.step_trailing hclear.ofKind?_eq_none (ht token hmem)) _

end TokenStream

/-- Parsing succeeds where the automaton reads to the end. Where it fails, it names the first
token at which the automaton cannot go on, and gives its message. -/
theorem parse_error_first_stop (tokens : List Token) :
    ((∃ expr, parse tokens = .ok expr) ↔
      ∃ last, Pushdown.start.run (TokenStream.ofList tokens).terminated = .ok last) ∧
    ∀ error, parse tokens = .error error →
      ∃ before behind last,
        (TokenStream.ofList tokens).terminated = before ++ error.token :: behind ∧
        Pushdown.start.run before = .ok last ∧
        last.step error.token = .error error.report.message ∧
        error.report.line = error.token.line ∧
        error.report.location =
          if error.token.isEof then " at end" else " at '" ++ error.token.lexeme ++ "'" := by
  have hrun := TokenStream.run_terminated (TokenStream.isEof_finish_ofList tokens)
    (fun _ => TokenStream.not_isEof_of_mem_ofList)
  change _ = match parse tokens with
    | .ok _ => _
    | .error error => _ at hrun
  constructor
  · cases hp : parse tokens with
    | ok expr => simp [hrun, hp]
    | error error => simp [hrun, hp]
  · intro error hp
    rw [hp] at hrun
    obtain ⟨before, behind, last, hsplit, hread, hstop⟩ := Pushdown.run_eq_error hrun
    exact ⟨before, behind, last, hsplit, hread, hstop, rfl, rfl⟩

theorem parse_error_first_stop_operator :
    parse [⟨.symbol .minus, "-", none, 1⟩, .eof 2] = .error ⟨.expectExpression, .eof 2⟩ ∧
    ∃ before behind last,
      [⟨.symbol .minus, "-", none, 1⟩, .eof 2] = before ++ Token.eof 2 :: behind ∧
      Pushdown.start.run before = .ok last ∧
      last.step (.eof 2) = .error "Expect expression." := by
  have hparse : parse [⟨.symbol .minus, "-", none, 1⟩, .eof 2] =
      .error ⟨.expectExpression, .eof 2⟩ := rfl
  obtain ⟨before, behind, last, hsplit, hread, hstop, -⟩ :=
    (parse_error_first_stop _).2 _ hparse
  exact ⟨hparse, before, behind, last, hsplit, hread, hstop⟩

end LoxFrontEnd
