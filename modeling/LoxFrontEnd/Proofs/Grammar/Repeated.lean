import LoxFrontEnd.Proofs.Grammar.Position
import Mathlib.Logic.Function.Iterate

/-! # Parsing again and again

A rule takes a token from the front, or else it takes none and expects an expression there
(`Rule.Advances`). So a stream that is parsed over and over gets shorter until it is stuck
(`Stuck`), at the latest after as many parses as it has tokens, and stays as it is from then on.
A parser by position follows the stream call by call. -/

namespace LoxFrontEnd
set_option autoImplicit false

namespace Rule

/-! ## Taking tokens -/

/-- The outcome leaves less than was there, or all of it because no expression starts there. -/
def Advances (finish : Token) (tokens : List Token)
    (outcome : Except ParseError Expr × List Token) : Prop :=
  outcome.2.length < tokens.length ∨
    outcome = (.error ⟨.expectExpression, tokens.head?.getD finish⟩, tokens)

section
variable {finish : Token}

theorem advances_of_suffix {token : Token} {rest : List Token}
    {outcome : Except ParseError Expr × List Token} (h : outcome.2 <:+ rest) :
    Advances finish (token :: rest) outcome :=
  .inl (Nat.lt_succ_of_le h.length_le)

theorem primaryRun_advances (inner? : Option Rule) (tokens : List Token) :
    Advances finish tokens (primaryRun finish inner? tokens) := by
  unfold primaryRun
  split
  · exact .inr rfl
  · split
    case h_7 => exact .inr rfl
    case h_6 =>
      split
      · exact advances_of_suffix (groupingRun_suffix ..)
      · exact advances_of_suffix (List.suffix_refl _)
    case h_4 | h_5 => split <;> exact advances_of_suffix (List.suffix_refl _)
    all_goals exact advances_of_suffix (List.suffix_refl _)

theorem operandRun_advances (deeper? : Option Rule) (tokens : List Token) :
    Advances finish tokens (operandRun finish deeper? tokens) := by
  unfold operandRun
  split
  · exact primaryRun_advances ..
  · next token rest =>
    split
    · exact primaryRun_advances ..
    · exact advances_of_suffix (List.suffix_refl _)
    · next deeper _ =>
      have hs := deeper.suffix rest
      split
      · next hrun => rw [hrun] at hs; exact advances_of_suffix hs
      · next hrun => rw [hrun] at hs; exact advances_of_suffix hs

theorem operand_advances (levels : Nat) (tokens : List Token) :
    Advances finish tokens ((operand finish levels).run tokens) := by
  cases levels <;> exact operandRun_advances ..

/-- Only the first operand can be missing altogether. -/
theorem foldLeft_advances {level : BinaryOp.Level} {operand : Rule}
    (h : ∀ tokens, Advances finish tokens (operand.run tokens)) (tokens : List Token) :
    Advances finish tokens ((foldLeft level operand).run tokens) := by
  have ht := h tokens
  simp only [foldLeft]
  split
  · next hrun => rwa [hrun] at ht
  · next left behind hrun =>
    rw [hrun] at ht
    obtain hlt | heq := ht
    · exact .inl (Nat.lt_of_le_of_lt (extend_suffix ..).length_le hlt)
    · cases heq

theorem expression_advances (levels : Nat) (tokens : List Token) :
    Advances finish tokens ((expression finish levels).run tokens) :=
  foldLeft_advances (foldLeft_advances (foldLeft_advances (foldLeft_advances
    (operand_advances levels)))) tokens

end
end Rule

namespace TokenStream

/-! ## Streams that are stuck -/

/-- Parsing leaves the stream as it is, because no expression starts there. -/
def Stuck (stream : TokenStream) : Prop :=
  stream.parse = (.error ⟨.expectExpression, stream.tokens.head?.getD stream.finish⟩, stream)

theorem tokens_parse (stream : TokenStream) : stream.parse.2.tokens =
    ((Rule.expression stream.finish nestingLimit).run stream.tokens).2 := by
  unfold parse
  split
  · next hrun => rw [hrun]
  · next hrun => rw [hrun]
  · next hrun => rw [hrun]

theorem parse_shorter_or_stuck (stream : TokenStream) :
    stream.parse.2.tokens.length < stream.tokens.length ∨ stream.Stuck := by
  obtain hlt | heq := Rule.expression_advances nestingLimit stream.tokens
  · exact .inl (stream.tokens_parse ▸ hlt)
  · exact .inr (by rw [Stuck, parse, heq])

/-- The stream as it is after some parses. -/
def afterParses (n : Nat) (stream : TokenStream) : TokenStream :=
  (fun stream => stream.parse.2)^[n] stream

theorem afterParses_succ (n : Nat) (stream : TokenStream) :
    stream.afterParses (n + 1) = (stream.afterParses n).parse.2 :=
  Function.iterate_succ_apply' ..

theorem parseTimes_eq_map (n : Nat) (stream : TokenStream) :
    stream.parseTimes n = (List.range n).map fun i => (stream.afterParses i).parse.1 := by
  induction n generalizing stream with
  | zero => rfl
  | succ n ih =>
    rw [List.range_succ_eq_map, List.map_cons, List.map_map]
    exact congrArg _ (ih stream.parse.2)

theorem finish_afterParses (n : Nat) (stream : TokenStream) :
    (stream.afterParses n).finish = stream.finish := by
  induction n with
  | zero => rfl
  | succ n ih => rw [afterParses_succ, parse_finish, ih]

theorem afterParses_suffix (n : Nat) (stream : TokenStream) :
    (stream.afterParses n).tokens <:+ stream.tokens := by
  induction n with
  | zero => exact List.suffix_refl _
  | succ n ih =>
    rw [afterParses_succ]
    exact (parse_suffix _).trans ih

/-- Once stuck, a stream stays as it is. -/
theorem Stuck.afterParses_eq {stream : TokenStream} {n : Nat} (h : (stream.afterParses n).Stuck)
    {later : Nat} (hl : n ≤ later) : stream.afterParses later = stream.afterParses n := by
  induction hl with
  | refl => rfl
  | step _ ih => rw [afterParses_succ, ih, h]

/-- Each parse takes a token, as long as none is stuck. -/
theorem length_afterParses_or_stuck (n : Nat) (stream : TokenStream) :
    (stream.afterParses n).tokens.length + n ≤ stream.tokens.length ∨
      (stream.afterParses n).Stuck := by
  induction n with
  | zero => exact .inl (Nat.le_refl _)
  | succ n ih =>
    obtain hlen | hstuck := ih
    · obtain hlt | hstuck := parse_shorter_or_stuck (stream.afterParses n)
      · rw [afterParses_succ]
        exact .inl (by omega)
      · rw [hstuck.afterParses_eq (Nat.le_succ n)]
        exact .inr hstuck
    · rw [hstuck.afterParses_eq (Nat.le_succ n)]
      exact .inr hstuck

theorem stuck_afterParses_length (stream : TokenStream) :
    (stream.afterParses stream.tokens.length).Stuck := by
  obtain hlen | hstuck := length_afterParses_or_stuck stream.tokens.length stream
  · obtain hlt | hstuck := parse_shorter_or_stuck (stream.afterParses stream.tokens.length)
    · omega
    · exact hstuck
  · exact hstuck

end TokenStream

namespace Parser

/-! ## A parser on its way -/

theorem beforeEof_new (tokens : List Token) :
    beforeEof (new tokens).tokens = beforeEof tokens := by
  unfold new
  split
  · next h => rw [List.getLast?_eq_none_iff.1 h]; rfl
  · next last h =>
    split
    · rfl
    · rw [beforeEof, List.takeWhile_append]
      split
      · next hall =>
        simp [beforeEof, (List.takeWhile_prefix _).eq_of_length hall]
      · rfl

theorem find?_new (tokens : List Token) :
    (new tokens).tokens.find? Token.isEof = some (TokenStream.ofList tokens).finish := by
  unfold new TokenStream.ofList
  split
  · next h => rw [List.getLast?_eq_none_iff.1 h]; rfl
  · next last h =>
    split
    · next hlast =>
      have hfound : (tokens.find? Token.isEof).isSome :=
        List.find?_isSome.2 ⟨last, List.mem_of_getLast? h, hlast⟩
      rw [← Option.some_get hfound]; rfl
    · rw [List.find?_append, h]
      cases tokens.find? Token.isEof <;> rfl

theorem new_eq_facing (tokens : List Token) :
    new tokens = facing (new tokens).tokens 0 (beforeEof tokens) := by
  rw [facing, beforeEof_new, Nat.sub_self]
  unfold new
  split <;> rfl

/-- A new parser does what parsing the stream does. -/
theorem parse_new (tokens : List Token) :
    (new tokens).parse = some (answer (LoxFrontEnd.parse tokens),
      facing (new tokens).tokens 0 (TokenStream.ofList tokens).parse.2.tokens) := by
  have hr : (TokenStream.ofList tokens).tokens <:+ beforeEof (new tokens).tokens := by
    rw [beforeEof_new]
    exact List.suffix_refl _
  calc (new tokens).parse
      = (facing (new tokens).tokens 0 (TokenStream.ofList tokens).tokens).parse :=
        congrArg parse (new_eq_facing tokens)
    _ = some (answer (LoxFrontEnd.parse tokens),
          facing (new tokens).tokens 0 (TokenStream.ofList tokens).parse.2.tokens) :=
        parse_facing (find?_new tokens) hr

/-- The tokens from the position on. -/
def ahead (parser : Parser) : List Token := parser.tokens.drop parser.position

theorem ofList_drop {tokens rest : List Token} {finish : Token}
    (hf : tokens.find? Token.isEof = some finish) (hr : rest <:+ beforeEof tokens) :
    TokenStream.ofList (tokens.drop ((beforeEof tokens).length - rest.length)) =
      ⟨rest, finish⟩ := by
  obtain ⟨behind, hdrop⟩ := drop_position hf hr
  have hfinish : finish.isEof := List.find?_some hf
  have hrest : ∀ token ∈ rest, ¬ token.isEof := fun token hm =>
    TokenStream.not_isEof_of_mem_ofList (hr.subset hm)
  have hnone : rest.find? Token.isEof = none := List.find?_eq_none.2 hrest
  rw [hdrop, TokenStream.ofList,
    List.takeWhile_append_of_pos (fun token hm => by simpa using hrest token hm)]
  simp [hfinish, hnone, List.find?_append]

/-- The parser after some calls: it is in front of what the stream has left. -/
def afterCalls (tokens : List Token) (n : Nat) : Parser :=
  facing (new tokens).tokens 0 ((TokenStream.ofList tokens).afterParses n).tokens

/-- What the next call answers after some. -/
def answerAfter (tokens : List Token) (n : Nat) : Answer :=
  answer ((TokenStream.ofList tokens).afterParses n).parse.1

section
variable (tokens : List Token) (n : Nat)

theorem left_suffix :
    ((TokenStream.ofList tokens).afterParses n).tokens <:+ beforeEof (new tokens).tokens := by
  rw [beforeEof_new]
  exact TokenStream.afterParses_suffix n _

theorem find?_left : (new tokens).tokens.find? Token.isEof =
    some ((TokenStream.ofList tokens).afterParses n).finish := by
  rw [TokenStream.finish_afterParses]
  exact find?_new tokens

theorem parse_afterCalls :
    (afterCalls tokens n).parse = some (answerAfter tokens n, afterCalls tokens (n + 1)) := by
  rw [afterCalls, parse_facing (find?_left tokens n) (left_suffix tokens n), afterCalls,
    TokenStream.afterParses_succ]
  rfl

/-- Nothing of the calls before plays a part in an answer. -/
theorem parse_ahead : LoxFrontEnd.parse (afterCalls tokens n).ahead =
      ((TokenStream.ofList tokens).afterParses n).parse.1 :=
  congrArg (fun stream => stream.parse.1) (ofList_drop (find?_left tokens n) (left_suffix tokens n))

theorem position_add_left : (afterCalls tokens n).position +
    ((TokenStream.ofList tokens).afterParses n).tokens.length = (beforeEof tokens).length := by
  have hle : ((TokenStream.ofList tokens).afterParses n).tokens.length ≤
      (beforeEof tokens).length := (TokenStream.afterParses_suffix n _).length_le
  rw [afterCalls, facing, beforeEof_new]
  exact Nat.sub_add_cancel hle

theorem position_le_length : (afterCalls tokens n).position ≤ (beforeEof tokens).length :=
  Nat.le_of_add_right_le (Nat.le_of_eq (position_add_left tokens n))

theorem position_le_succ :
    (afterCalls tokens n).position ≤ (afterCalls tokens (n + 1)).position := by
  have hbefore := position_add_left tokens n
  have hafter := position_add_left tokens (n + 1)
  have hle := (TokenStream.parse_suffix ((TokenStream.ofList tokens).afterParses n)).length_le
  rw [← TokenStream.afterParses_succ] at hle
  omega

theorem position_lt_succ_or_stuck :
    (afterCalls tokens n).position < (afterCalls tokens (n + 1)).position ∨
      ((TokenStream.ofList tokens).afterParses n).Stuck := by
  refine (TokenStream.parse_shorter_or_stuck _).imp_left fun hlt => ?_
  have hbefore := position_add_left tokens n
  have hafter := position_add_left tokens (n + 1)
  rw [← TokenStream.afterParses_succ] at hlt
  omega

end

/-! ## One call after another -/

/-- The states that a parser goes through when it is called over and over, and the answers. -/
structure Calls (tokens : List Token) (states : Nat → Parser) (answers : Nat → Answer) :
    Prop where
  first : states 0 = new tokens
  next : ∀ n, (states n).parse = some (answers n, states (n + 1))

theorem calls_afterCalls (tokens : List Token) :
    Calls tokens (afterCalls tokens) (answerAfter tokens) where
  first := (new_eq_facing tokens).symm
  next n := parse_afterCalls tokens n

/-- Between two calls: the parser is at one of its tokens, with no end mark behind it, and inside
of nothing. -/
structure Ready (tokens : List Token) (parser : Parser) : Prop where
  tokens_eq : parser.tokens = (new tokens).tokens
  position_lt : parser.position < parser.tokens.length
  not_past_end : ∀ token ∈ parser.tokens.take parser.position, ¬ token.isEof
  depth_eq : parser.depth = 0

theorem ready_afterCalls (tokens : List Token) (n : Nat) : Ready tokens (afterCalls tokens n) := by
  have hle := position_le_length tokens n
  obtain ⟨behind, hsplit⟩ := eq_beforeEof_append (find?_new tokens)
  rw [beforeEof_new] at hsplit
  have htokens : (afterCalls tokens n).tokens = (new tokens).tokens := rfl
  refine ⟨rfl, ?_, ?_, rfl⟩
  · have hlength := congrArg List.length hsplit
    rw [List.length_append, List.length_cons] at hlength
    rw [htokens]
    omega
  · intro token hm
    rw [htokens, hsplit, List.take_append_of_le_length hle] at hm
    exact TokenStream.not_isEof_of_mem_ofList (List.mem_of_mem_take hm)

theorem answerAfter_of_stuck {n : Nat} {tokens : List Token}
    (h : ((TokenStream.ofList tokens).afterParses n).Stuck) {later : Nat} (hl : n ≤ later) :
    afterCalls tokens later = afterCalls tokens n ∧
      answerAfter tokens later = answerAfter tokens n := by
  rw [afterCalls, answerAfter, h.afterParses_eq hl]
  exact ⟨rfl, rfl⟩

theorem exists_answerAfter_of_stuck {n : Nat} {tokens : List Token}
    (h : ((TokenStream.ofList tokens).afterParses n).Stuck) :
    ∃ token, answerAfter tokens n = .error (token, "Expect expression.") := by
  rw [answerAfter, h]
  exact ⟨_, rfl⟩

/-- A parser can be called over and over. Between the calls it is ready for the next, each answers
as a new parser of the tokens still there would, and each takes a token or is stuck from then on.
-/
theorem parse_over_and_over (tokens : List Token) :
    ∃ states answers, Calls tokens states answers ∧
    (∀ n, Ready tokens (states n) ∧ (states n).position ≤ (states (n + 1)).position) ∧
    (∀ n, (new (states n).ahead).parse.map Prod.fst = some (answers n) ∧
      answers n = answer (LoxFrontEnd.parse (states n).ahead)) ∧
    (∀ n, (states n).position < (states (n + 1)).position ∨
      (∃ token, answers n = .error (token, "Expect expression.")) ∧
        ∀ later, n ≤ later → states later = states n ∧ answers later = answers n) ∧
    (∃ token, ∀ n, (beforeEof tokens).length ≤ n →
      answers n = .error (token, "Expect expression.")) ∧
    ∀ n, ((TokenStream.ofList tokens).parseTimes n).map answer = (List.range n).map answers := by
  refine ⟨afterCalls tokens, answerAfter tokens, calls_afterCalls tokens, ?_, ?_, ?_, ?_, ?_⟩
  · exact fun n => ⟨ready_afterCalls tokens n, position_le_succ tokens n⟩
  · intro n
    rw [parse_new, parse_ahead]
    exact ⟨rfl, rfl⟩
  · exact fun n => (position_lt_succ_or_stuck tokens n).imp_right fun hstuck =>
      ⟨exists_answerAfter_of_stuck hstuck, fun _ hl => answerAfter_of_stuck hstuck hl⟩
  · have hstuck := TokenStream.stuck_afterParses_length (TokenStream.ofList tokens)
    obtain ⟨token, htoken⟩ := exists_answerAfter_of_stuck hstuck
    exact ⟨token, fun n hl => (answerAfter_of_stuck hstuck hl).2.trans htoken⟩
  · intro n
    rw [TokenStream.parseTimes_eq_map, List.map_map]
    rfl

end Parser
end LoxFrontEnd
