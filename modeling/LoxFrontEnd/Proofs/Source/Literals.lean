import LoxFrontEnd.Proofs.Grammar.Repeated
import LoxFrontEnd.Proofs.Lexical.Layout
import LoxFrontEnd.Proofs.Number.Numeral

/-! # What a parser never says

Tokens that were scanned are filled (`Token.Filled`): a string carries its text, a number its value
because its lexeme is a numeral, and nothing else carries anything. Filled tokens are never missing
a literal (`parse_message_of_filled`), and of no tokens whatever is an operator missing in the
tables that the rules look it up in (`Parser.parse_without_internal_error`). -/

namespace LoxFrontEnd
set_option autoImplicit false

/-! ## Tokens with their values -/

/-- The token carries a value of its kind, if it is of a kind that has values. -/
def Token.Filled (token : Token) : Prop :=
  match token.kind with
  | .string => ∃ value, token.literal = some (.string value)
  | .number => ∃ value, token.literal = some (.number value)
  | _ => token.literal = none

theorem Token.filled_eof (line : Nat) : (Token.eof line).Filled := rfl

theorem Token.filled_ofWord (text lexeme : String) (line : Nat) :
    (Token.mk (.ofWord text) lexeme none line).Filled := by
  unfold Filled Kind.ofWord
  cases Keyword.ofSpelling? text <;> rfl

/-- A number is a numeral, however many digits it has, and so there is a double to it. -/
theorem Lexeme.filled_of_outcome {lexeme : Lexeme} {line : Nat} {token : Token}
    (hn : ∀ digits, lexeme = .number digits → IsLexeme digits .number)
    (h : lexeme.outcome line = .ok token) : token.Filled := by
  cases lexeme with
  | word text =>
    obtain rfl := Except.ok.inj h
    exact Token.filled_ofWord ..
  | number digits =>
    obtain ⟨numeral, rfl⟩ := Numeral.exists_text_of_isLexeme (hn digits rfl)
    obtain rfl := Except.ok.inj h
    exact ⟨numeral.value, congrArg (Option.map Literal.number) numeral.ofText?_text⟩
  | quoted body =>
    obtain rfl := Except.ok.inj h
    exact ⟨_, rfl⟩
  | symbol s =>
    obtain rfl := Except.ok.inj h
    rfl
  | stray c | unterminated body => cases h

theorem filled_of_mem_scan {source : String} {depth : Nat} {token : Token}
    (h : token ∈ (scan source depth).tokens) : token.Filled := by
  rcases List.mem_append.1 h with h | h
  · obtain ⟨unit, hunit, htoken⟩ := List.mem_filterMap.1 h
    obtain ⟨c, cs, hsplit⟩ := Cursor.exists_split_of_mem_units hunit
    have hout : unit.lexeme.outcome unit.line = .ok token := by
      rw [Located.token?, Located.outcome] at htoken
      split at htoken <;> simp_all
    refine Lexeme.filled_of_outcome (fun digits hd => ?_) hout
    have hkind : (Lexeme.split c cs).1.kind? = some .number := by rw [← hsplit, hd]; rfl
    have hlex := Lexeme.isLexeme_split hkind
    rwa [← hsplit, hd] at hlex
  · rw [List.mem_singleton.1 h]
    exact Token.filled_eof _

/-- There is one end mark among the tokens, behind all the others. -/
theorem exists_tokens_scan_eq (source : String) (depth : Nat) : ∃ before line,
    (scan source depth).tokens = before ++ [Token.eof line] ∧ ∀ token ∈ before, ¬ token.isEof := by
  refine ⟨_, _, rfl, fun token hm => ?_⟩
  obtain ⟨unit, -, htoken⟩ := List.mem_filterMap.1 hm
  exact Located.not_isEof_of_token? htoken

/-! ## Missing literals -/

theorem Token.front_eq_missing_iff {token : Token} : token.front = .missing ↔
    (token.kind = .number ∨ token.kind = .string) ∧ token.literal = none := by
  unfold Token.front
  split <;> simp_all
  all_goals split <;> simp_all

theorem Token.Filled.front_ne_missing {token : Token} (h : token.Filled) :
    token.front ≠ .missing := by
  rw [Ne, Token.front_eq_missing_iff]
  rintro ⟨hk | hk, hl⟩ <;> rw [Token.Filled, hk] at h <;> obtain ⟨value, hv⟩ := h <;>
    simp [hv] at hl

theorem Pushdown.front_of_step_eq_error {state : Pushdown} {token : Token}
    (h : state.step token = .error "Expect literal value.") : token.front = .missing := by
  unfold step push at h
  split at h
  · split at h
    case h_4 hfront => exact hfront
    all_goals first | contradiction | (split at h <;> simp at h)
  · split at h
    · contradiction
    · split at h <;> split at h <;> simp at h

theorem TokenStream.message_parse_of_filled {stream : TokenStream} (hf : stream.finish.isEof)
    (ht : ∀ token ∈ stream.tokens, ¬ token.isEof ∧ token.Filled) {error : ParseError}
    (h : stream.parse.1 = .error error) : error.message ≠ "Expect literal value." := by
  intro hmessage
  have hrun := run_terminated hf fun token hm => (ht token hm).1
  rw [h] at hrun
  obtain ⟨before, behind, last, hsplit, -, hstep⟩ := Pushdown.run_eq_error hrun
  rw [hmessage] at hstep
  have hmissing := Pushdown.front_of_step_eq_error hstep
  have hmem : error.token ∈ stream.terminated := by
    rw [hsplit]
    exact List.mem_append_right before List.mem_cons_self
  rcases List.mem_append.1 hmem with hm | hm
  · exact (ht _ hm).2.front_ne_missing hmissing
  · rw [← List.mem_singleton.1 hm, Token.isEof, decide_eq_true_eq] at hf
    simp [Token.front_eq_missing_iff, hf] at hmissing

/-! ## Missing operators -/

theorem ParseFault.message_ne_missing_operator (fault : ParseFault) :
    fault.message ≠ "Expect unary operator." ∧ fault.message ≠ "Expect binary operator." := by
  cases fault <;> decide

namespace Parser

theorem message_of_answer_eq {result : Except ParseError Expr} {token : Token} {message : String}
    (h : answer result = .error (token, message)) :
    ∃ error, result = .error error ∧ error.message = message := by
  cases result with
  | ok expr => cases h
  | error error => exact ⟨error, rfl, congrArg Prod.snd (Except.error.inj h)⟩

theorem answerAfter_of_filled {tokens : List Token} (h : ∀ token ∈ tokens, token.Filled) (n : Nat)
    (token : Token) : answerAfter tokens n ≠ .error (token, "Expect literal value.") := by
  intro hanswer
  obtain ⟨error, hparse, hmessage⟩ := message_of_answer_eq hanswer
  have hsuffix : ((TokenStream.ofList tokens).afterParses n).tokens <:+ beforeEof tokens :=
    TokenStream.afterParses_suffix n _
  have hfinish : ((TokenStream.ofList tokens).afterParses n).finish.isEof := by
    rw [TokenStream.finish_afterParses]
    exact TokenStream.isEof_finish_ofList tokens
  refine TokenStream.message_parse_of_filled hfinish (fun token hm => ?_) hparse hmessage
  have hbefore := hsuffix.subset hm
  exact ⟨TokenStream.not_isEof_of_mem_ofList hbefore, h token (List.takeWhile_subset _ hbefore)⟩

/-- The messages that blame the parser itself are never seen. What is scanned has the values that
its kinds ask for, so none of them is missing when it is parsed; and whatever the tokens and however
often the parser is called, it looks only at tokens that are there, and finds every operator that
it has matched. -/
theorem parse_without_internal_error :
    (∀ source depth, (∀ token ∈ (scan source depth).tokens, token.Filled) ∧
      (∃ before line, (scan source depth).tokens = before ++ [Token.eof line] ∧
        ∀ token ∈ before, ¬ token.isEof) ∧
      ∀ token, answer (LoxFrontEnd.parse (scan source depth).tokens) ≠
        .error (token, "Expect literal value.")) ∧
    ∀ tokens, ∃ states answers, Calls tokens states answers ∧
      (∀ n, (states n).position < (states n).tokens.length) ∧
      (∀ n token, answers n ≠ .error (token, "Expect unary operator.") ∧
        answers n ≠ .error (token, "Expect binary operator.")) ∧
      ((∀ token ∈ tokens, token.Filled) →
        ∀ n token, answers n ≠ .error (token, "Expect literal value.")) := by
  refine ⟨fun source depth => ⟨fun _ => filled_of_mem_scan, exists_tokens_scan_eq source depth,
    answerAfter_of_filled (fun _ => filled_of_mem_scan) 0⟩, fun tokens => ?_⟩
  refine ⟨afterCalls tokens, answerAfter tokens, calls_afterCalls tokens,
    fun n => (ready_afterCalls tokens n).position_lt, fun n token => ?_, answerAfter_of_filled⟩
  constructor <;> intro hanswer <;> obtain ⟨error, -, hmessage⟩ := message_of_answer_eq hanswer
  · exact error.fault.message_ne_missing_operator.1 hmessage
  · exact error.fault.message_ne_missing_operator.2 hmessage

theorem parse_without_internal_error_scanned :
    let tokens := (scan "1.50 + (\"a\" 2" 0).tokens
    (∀ token ∈ tokens, token.Filled) ∧ ∃ states answers, Calls tokens states answers ∧
      ∀ n token, answers n ≠ .error (token, "Expect literal value.") := by
  intro tokens
  obtain ⟨hfilled, -, -⟩ := parse_without_internal_error.1 "1.50 + (\"a\" 2" 0
  obtain ⟨states, answers, hcalls, -, -, hliteral⟩ := parse_without_internal_error.2 tokens
  exact ⟨hfilled, states, answers, hcalls, hliteral hfilled⟩

/-- A number without its value comes from no source. -/
example : LoxFrontEnd.parse [⟨.number, "1", none, 1⟩] =
    .error ⟨.expectLiteral, ⟨.number, "1", none, 1⟩⟩ := by rfl

end Parser
end LoxFrontEnd
