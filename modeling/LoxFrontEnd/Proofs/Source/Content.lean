import LoxFrontEnd.Proofs.Grammar.Acceptance
import LoxFrontEnd.Proofs.Grammar.Pushdown
import LoxFrontEnd.Proofs.Lexical.Arrangement

/-! # What tokens hold, apart from their lines

Parsing does not look at lines: tokens with the same contents are parsed as the same tree, or
fail with the same message at the same place (`parse_eq_of_content`). The contents of the tokens
of a scan are those of its lexemes, so a text that is arranged from lexemes is scanned to their
contents (`scan_arranged`). -/

namespace LoxFrontEnd
set_option autoImplicit false

/-- Everything about a token but its line. -/
structure Content where
  kind : Kind
  lexeme : String
  literal : Option Literal
  deriving DecidableEq

def Token.content (token : Token) : Content := ⟨token.kind, token.lexeme, token.literal⟩

def Content.isEof (content : Content) : Bool := content.kind = .eof

/-- What a parse error says, apart from its line. -/
def ParseError.saying (error : ParseError) : String × String := (error.message, error.location)

section
variable {token token' : Token} (h : token.content = token'.content)
include h

theorem Token.kind_eq_of_content : token.kind = token'.kind := congrArg Content.kind h

theorem Token.isEof_eq_of_content : token.isEof = token'.isEof := congrArg Content.isEof h

theorem Token.literal_eq_of_content : token.literal = token'.literal := congrArg Content.literal h

theorem Token.terminal?_eq_of_content : token.terminal? = token'.terminal? := by
  unfold Token.terminal? Token.value?
  rw [Token.kind_eq_of_content h, Token.literal_eq_of_content h]

theorem Token.front_eq_of_content : token.front = token'.front := by
  unfold Token.front
  rw [Token.kind_eq_of_content h, Token.literal_eq_of_content h]

theorem Pushdown.step_eq_of_content (state : Pushdown) : state.step token = state.step token' := by
  unfold Pushdown.step
  rw [Token.front_eq_of_content h, Token.kind_eq_of_content h, Token.isEof_eq_of_content h]

end

/-! ## Parsing by contents -/

theorem map_terminal?_of_content {tokens tokens' : List Token}
    (h : tokens.map Token.content = tokens'.map Token.content) :
    tokens.map Token.terminal? = tokens'.map Token.terminal? := by
  induction tokens generalizing tokens' with
  | nil => rw [List.map_eq_nil_iff.1 h.symm]
  | cons token tokens ih =>
    obtain ⟨token', rest, rfl, ht, hrest⟩ := List.map_eq_cons_iff.1 h.symm
    rw [List.map_cons, List.map_cons, Token.terminal?_eq_of_content ht, ih hrest.symm]

/-- What a run stops at, apart from lines. -/
def Pushdown.stopSaying : Token × String → Content × String
  | (token, message) => (token.content, message)

theorem Pushdown.run_eq_of_content {tokens tokens' : List Token}
    (h : tokens.map Token.content = tokens'.map Token.content) (state : Pushdown) :
    (state.run tokens).mapError Pushdown.stopSaying =
      (state.run tokens').mapError Pushdown.stopSaying := by
  induction tokens generalizing tokens' state with
  | nil => rw [List.map_eq_nil_iff.1 h.symm]
  | cons token tokens ih =>
    obtain ⟨token', rest, rfl, ht, hrest⟩ := List.map_eq_cons_iff.1 h.symm
    have hstep := Pushdown.step_eq_of_content ht.symm state
    rw [Pushdown.run, Pushdown.run, ← hstep]
    cases state.step token with
    | ok next => exact ih hrest.symm next
    | error message => exact congrArg (fun c => Except.error (c, message)) ht.symm

namespace TokenStream

theorem content_ofList {tokens tokens' : List Token}
    (h : tokens.map Token.content = tokens'.map Token.content) :
    (ofList tokens).tokens.map Token.content = (ofList tokens').tokens.map Token.content ∧
      (ofList tokens).finish.content = (ofList tokens').finish.content := by
  have hfront (tokens : List Token) : (ofList tokens).tokens.map Token.content =
      (tokens.map Token.content).takeWhile fun content => !content.isEof := by
    rw [List.takeWhile_map]
    rfl
  have hfinish (tokens : List Token) : (ofList tokens).finish.content =
      ((tokens.map Token.content).find? Content.isEof).getD ⟨.eof, "", none⟩ := by
    rw [List.find?_map]
    change _ = ((tokens.find? Token.isEof).map Token.content).getD _
    rw [ofList]
    cases tokens.find? Token.isEof <;> rfl
  rw [hfront, hfront, hfinish, hfinish, h]
  exact ⟨rfl, rfl⟩

theorem content_terminated {tokens tokens' : List Token}
    (h : tokens.map Token.content = tokens'.map Token.content) :
    (ofList tokens).terminated.map Token.content = (ofList tokens').terminated.map Token.content := by
  obtain ⟨htokens, hfinish⟩ := content_ofList h
  rw [terminated, terminated, List.map_append, List.map_append, htokens, List.map_singleton,
    List.map_singleton, hfinish]

end TokenStream

theorem Pushdown.run_ofList (tokens : List Token) :
    start.run (TokenStream.ofList tokens).terminated =
      match parse tokens with
      | .ok _ => .ok ⟨[], false⟩
      | .error error => .error (error.token, error.message) :=
  TokenStream.run_terminated (TokenStream.isEof_finish_ofList tokens)
    fun _ => TokenStream.not_isEof_of_mem_ofList

theorem ParseError.saying_eq_of_content {error error' : ParseError}
    (ht : error.token.content = error'.token.content) (hm : error.message = error'.message) :
    error.saying = error'.saying := by
  have hl : error.token.lexeme = error'.token.lexeme := congrArg Content.lexeme ht
  rw [saying, saying, hm, location, location, Token.isEof_eq_of_content ht, hl]

theorem parse_ok_of_content {tokens tokens' : List Token} {expr : Expr}
    (h : tokens.map Token.content = tokens'.map Token.content) (hp : parse tokens = .ok expr) :
    parse tokens' = .ok expr := by
  obtain ⟨hd, hn⟩ := TokenStream.parse_eq_ok_iff.1 hp
  obtain ⟨hy, hs, hle⟩ := derives_iff.1 hd
  have hterminals := map_terminal?_of_content (TokenStream.content_ofList h).1
  exact TokenStream.parse_eq_ok_iff.2 ⟨derives_iff.2 ⟨hterminals.symm.trans hy, hs, hle⟩, hn⟩

theorem parse_eq_of_content {tokens tokens' : List Token}
    (h : tokens.map Token.content = tokens'.map Token.content) :
    (parse tokens).mapError ParseError.saying = (parse tokens').mapError ParseError.saying := by
  cases hp : parse tokens with
  | ok expr => rw [parse_ok_of_content h hp]
  | error error =>
    cases hp' : parse tokens' with
    | ok expr =>
      rw [parse_ok_of_content h.symm hp'] at hp
      cases hp
    | error error' =>
      -- Both runs of the automaton stop at the token that their parse names.
      have hrun := Pushdown.run_eq_of_content (TokenStream.content_terminated h) Pushdown.start
      rw [Pushdown.run_ofList, Pushdown.run_ofList, hp, hp'] at hrun
      obtain ⟨ht, hm⟩ := Prod.mk.inj (Except.error.inj hrun)
      exact congrArg Except.error (ParseError.saying_eq_of_content ht hm)

/-! ## Scanning by contents -/

/-- The token of a lexeme that is on no line yet. -/
def Lexeme.token? (lexeme : Lexeme) : Option Token := Located.token? ⟨0, lexeme⟩

def Lexeme.content? (lexeme : Lexeme) : Option Content := lexeme.token?.map Token.content

theorem Located.content_token? (unit : Located) :
    unit.token?.map Token.content = unit.lexeme.content? := by
  obtain ⟨line, lexeme⟩ := unit
  cases lexeme <;> rfl

theorem Scan.content_units (scan : Scan) :
    (scan.units.filterMap Located.token?).map Token.content =
      (scan.units.map Located.lexeme).filterMap Lexeme.content? := by
  rw [List.map_filterMap, List.filterMap_map]
  exact congrArg (scan.units.filterMap ·) (funext Located.content_token?)

theorem Scan.content_tokens (scan : Scan) :
    scan.tokens.map Token.content =
      (scan.units.map Located.lexeme).filterMap Lexeme.content? ++ [⟨.eof, "", none⟩] := by
  rw [tokens, List.map_append, content_units]
  rfl

theorem Located.error?_of_kind? {unit : Located} {kind : Kind}
    (h : unit.lexeme.kind? = some kind) : unit.error? = none := by
  obtain ⟨token, hout, -⟩ := Lexeme.outcome_of_kind? unit.line h
  rw [error?, outcome, hout]

theorem Arranged.whole {lexemes : List Lexeme} {text : List Char} (h : Arranged lexemes text) :
    ∀ lexeme ∈ lexemes, lexeme.Whole := by
  induction h with
  | nil => simp
  | cons hw _ _ _ ih => exact List.forall_mem_cons.2 ⟨hw, ih⟩

/-- A text that is arranged from lexemes is scanned to their contents, without a report. -/
theorem scan_arranged {lexemes : List Lexeme} {text lead : List Char} {depth : Nat}
    (h : Arranged lexemes text) (hlead : Spacing depth lead) :
    let scan := scan (String.ofList (lead ++ text)) depth
    scan.tokens.map Token.content =
        lexemes.filterMap Lexeme.content? ++ [⟨.eof, "", none⟩] ∧
      scan.reports = [] ∧ scan.depth = 0 := by
  intro scan
  obtain ⟨hunits, hdepth⟩ := Cursor.units_arranged h hlead 1
  have hstart : Cursor.start (String.ofList (lead ++ text)).toList depth =
      ⟨lead ++ text, 1, depth⟩ := by rw [String.toList_ofList]; rfl
  rw [← hstart] at hunits hdepth
  change scan.units.map Located.lexeme = lexemes at hunits
  refine ⟨by rw [scan.content_tokens, hunits], ?_, hdepth⟩
  have herrors : ∀ unit ∈ scan.units, unit.error? = none := by
    intro unit hm
    have hmem : unit.lexeme ∈ lexemes := hunits ▸ List.mem_map_of_mem hm
    obtain ⟨⟨kind, hkind⟩, -⟩ := h.whole _ hmem
    exact Located.error?_of_kind? hkind
  rw [Scan.reports, Scan.errors, List.filterMap_eq_nil_iff.2 herrors]
  rfl

end LoxFrontEnd
