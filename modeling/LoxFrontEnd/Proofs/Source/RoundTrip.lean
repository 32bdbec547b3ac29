import LoxFrontEnd.Proofs.Grammar.Height
import LoxFrontEnd.Proofs.Source.Content
import LoxFrontEnd.Proofs.Source.Written
import LoxFrontEnd.Run.Basic

/-! # Reading back what was written

A tree of the grammar's shape that is written with nothing between its lexemes is scanned and
parsed back to itself (`parse_written`). What keeps two lexemes apart is the grammar: an operand
is followed only by a closing parenthesis or a binary operator (`FollowsOperand`), and an operator
or an opening parenthesis only by what starts an operand (`StartsOperand`). -/

namespace LoxFrontEnd
set_option autoImplicit false

/-! ## The ends of an operand -/

/-- What an operand starts with, besides letters and digits. -/
def operandStarts : List Char := ['"', '(', '!', '-']

/-- What a closing parenthesis or a binary operator starts with. -/
def operandFollowers : List Char := [')', '!', '=', '>', '<', '-', '+', '/', '*']

def StartsOperand (text : List Char) : Prop :=
  ∃ c cs, text = c :: cs ∧ (isWordStart c ∨ c.isDigit ∨ c ∈ operandStarts)

def FollowsOperand (text : List Char) : Prop := ∀ c ∈ text.head?, c ∈ operandFollowers

theorem StartsOperand.append {text : List Char} (h : StartsOperand text) (rest : List Char) :
    StartsOperand (text ++ rest) := by
  obtain ⟨c, cs, rfl, hc⟩ := h
  exact ⟨c, cs ++ rest, rfl, hc⟩

/-- No symbol goes on with what starts an operand, and none starts a comment with it. -/
theorem StartsOperand.standsBefore {text : List Char} (h : StartsOperand text) (s : Symbol) :
    (Lexeme.symbol s).StandsBefore text := by
  obtain ⟨c, cs, rfl, hc⟩ := h
  have hne {d : Char} (hw : ¬ isWordStart d) (hd : ¬ d.isDigit) (ho : d ∉ operandStarts) :
      c ≠ d := by
    rintro rfl
    rcases hc with hc | hc | hc
    · exact hw hc
    · exact hd hc
    · exact ho hc
  intro d hd
  obtain rfl : c = d := Option.some.inj hd
  exact ⟨fun _ => hne (by decide) (by decide) (by decide),
    fun _ => ⟨hne (by decide) (by decide) (by decide), hne (by decide) (by decide) (by decide)⟩⟩

theorem operandFollowers_spec {c : Char} (h : c ∈ operandFollowers) :
    ¬ isWordPart c ∧ ¬ c.isDigit ∧ c ≠ '.' := by
  have hall : operandFollowers.all fun c => !isWordPart c && !c.isDigit && c != '.' := by decide
  simpa [and_assoc] using List.all_eq_true.1 hall c h

theorem followsOperand_nil : FollowsOperand [] := by simp [FollowsOperand]

theorem followsOperand_closing (rest : List Char) : FollowsOperand (')' :: rest) := by
  intro c hc
  obtain rfl : ')' = c := Option.some.inj hc
  decide

theorem followsOperand_operator (op : BinaryOp) (rest : List Char) :
    FollowsOperand (op.symbol.text.toList ++ rest) := by
  intro c hc
  cases op <;> (obtain rfl := Option.some.inj hc; decide)

/-! ## Lexemes of the language are whole -/

theorem Symbol.whole (s : Symbol) : (Lexeme.symbol s).Whole := by
  cases s <;> exact ⟨⟨_, rfl⟩, _, _, rfl, rfl⟩

theorem Quoted.whole {body : List Char} (h : StringBody body) : (Lexeme.quoted body).Whole :=
  ⟨⟨_, rfl⟩, _, _, rfl, Lexeme.split_quoted (h.close?_append [])⟩

theorem Numeral.whole_number (numeral : Numeral) : (Lexeme.number numeral.text).Whole := by
  obtain ⟨d, cs, htext, hd⟩ := numeral.exists_text_eq_cons
  have hlexeme := numeral.isLexeme_text
  rw [htext] at hlexeme ⊢
  obtain ⟨-, hnil⟩ := Lexeme.split_of_isLexeme hlexeme
  rw [Lexeme.split_digit _ hd] at hnil
  have happend := splitNumber_append cs
  rw [hnil, List.append_nil] at happend
  exact ⟨⟨_, rfl⟩, d, cs, rfl, by rw [Lexeme.split_digit _ hd, happend, hnil]⟩

theorem Arranged.cons_whole {lexeme : Lexeme} {lexemes : List Lexeme} {text : List Char}
    (hw : lexeme.Whole) (hs : lexeme.StandsBefore text) (h : Arranged lexemes text) :
    Arranged (lexeme :: lexemes) (lexeme.text ++ text) :=
  @Arranged.cons lexeme lexemes [] text hw .nil hs h

/-! ## Lexemes of a tree -/

/-- A text spells a tree by lexemes with nothing between them: they stay as they are in front of
whatever follows an operand, and their tokens are the yield of the tree. -/
structure Spells (lexemes : List Lexeme) (text : List Char) (expr : Expr) : Prop where
  arranged : ∀ {more rest}, FollowsOperand rest → Arranged more rest →
    Arranged (lexemes ++ more) (text ++ rest)
  yields : Yields (lexemes.filterMap Lexeme.token?) expr
  starts : StartsOperand text

theorem Lexeme.token?_symbol (s : Symbol) :
    (symbol s).token? = some ⟨.symbol s, String.ofList s.text.toList, none, 0⟩ := rfl

theorem spells_leaf {lexeme : Lexeme} {value : Value} {token : Token} (hw : lexeme.Whole)
    (hs : ∀ rest, FollowsOperand rest → lexeme.StandsBefore rest)
    (ht : lexeme.token? = some token) (hv : token.value? = some value)
    (hstarts : StartsOperand lexeme.text) : Spells [lexeme] lexeme.text (.literal value) where
  arranged hr h := h.cons_whole hw (hs _ hr)
  yields := by
    rw [List.filterMap_cons_some ht]
    exact congrArg (· :: []) (Token.terminal?_eq_value_iff.2 hv)
  starts := hstarts

theorem spells_grouping {lexemes : List Lexeme} {text : List Char} {inner : Expr}
    (h : Spells lexemes text inner) :
    Spells (.symbol .leftParen :: (lexemes ++ [.symbol .rightParen])) ('(' :: (text ++ [')']))
      (.grouping inner) where
  arranged {more rest} hr hmore := by
    have hclosing : (Lexeme.symbol .rightParen).StandsBefore rest :=
      fun c _ => ⟨fun hw => absurd rfl hw, fun hs => nomatch hs⟩
    have hinner := h.arranged (followsOperand_closing rest)
      (hmore.cons_whole (Symbol.whole _) hclosing)
    rw [List.cons_append, List.cons_append, List.append_assoc, List.append_assoc]
    exact hinner.cons_whole (Symbol.whole .leftParen) ((h.starts.append _).standsBefore _)
  yields := by
    have hy := h.yields
    rw [Yields] at hy ⊢
    simp [Lexeme.token?_symbol, Token.terminal?, Expr.yield, hy]
  starts := ⟨'(', _, rfl, .inr (.inr (by decide))⟩

theorem spells_unary {op : UnaryOp} {lexemes : List Lexeme} {text : List Char} {operand : Expr}
    (h : Spells lexemes text operand) :
    Spells (.symbol op.symbol :: lexemes) (op.symbol.text.toList ++ text) (.unary op operand) where
  arranged {more rest} hr hmore := by
    rw [List.append_assoc]
    exact (h.arranged hr hmore).cons_whole (Symbol.whole _) ((h.starts.append _).standsBefore _)
  yields := by
    have hy := h.yields
    rw [Yields] at hy ⊢
    simp [Lexeme.token?_symbol, Token.terminal?, Expr.yield, hy]
  starts := by
    cases op <;> exact ⟨_, _, rfl, .inr (.inr (by decide))⟩

theorem spells_binary {op : BinaryOp} {before behind : List Lexeme} {text text' : List Char}
    {left right : Expr} (hl : Spells before text left) (hr : Spells behind text' right) :
    Spells (before ++ .symbol op.symbol :: behind) (text ++ op.symbol.text.toList ++ text')
      (.binary left op right) where
  arranged {more rest} hrest hmore := by
    have hright := hr.arranged hrest hmore
    have hop := hright.cons_whole (Symbol.whole op.symbol) ((hr.starts.append _).standsBefore _)
    have hleft := hl.arranged (followsOperand_operator op _) hop
    simpa using hleft
  yields := by
    have hyl := hl.yields
    have hyr := hr.yields
    rw [Yields] at hyl hyr ⊢
    simp [Lexeme.token?_symbol, Token.terminal?, Expr.yield, hyl, hyr]
  starts := by
    rw [List.append_assoc]
    exact hl.starts.append _

theorem spells_word {text : List Char} {value : Value} {token : Token}
    (hw : (Lexeme.word text).Whole) (ht : (Lexeme.word text).token? = some token)
    (hv : token.value? = some value) (hstarts : StartsOperand text) :
    Spells [.word text] text (.literal value) :=
  spells_leaf hw (fun _ hr c hc => (operandFollowers_spec (hr c hc)).1) ht hv hstarts

theorem Value.Written.spells {value : Value} {source : String} (h : value.Written source) :
    ∃ lexemes, Spells lexemes source.toList (.literal value) := by
  cases h with
  | true | false | nil =>
    exact ⟨_, spells_word ⟨⟨_, rfl⟩, _, _, rfl, rfl⟩ rfl rfl ⟨_, _, rfl, .inl (by decide)⟩⟩
  | number numeral =>
    have hfollows (rest : List Char) (hr : FollowsOperand rest) :
        (Lexeme.number numeral.text).StandsBefore rest :=
      fun c hc => (operandFollowers_spec (hr c hc)).2
    obtain ⟨d, cs, htext, hd⟩ := numeral.exists_text_eq_cons
    rw [String.toList_ofList]
    refine ⟨_, spells_leaf numeral.whole_number hfollows rfl ?_ ⟨d, cs, htext, .inr (.inl hd)⟩⟩
    rw [Token.value?, numeral.ofText?_text]
    rfl
  | string value =>
    have hbody := Quoted.stringBody_encode value.toList
    have htext : ("\"" ++ String.ofList (Quoted.encode value.toList) ++ "\"").toList =
        (Lexeme.quoted (Quoted.encode value.toList)).text := by
      simp [Lexeme.text]
    rw [htext]
    refine ⟨_, spells_leaf (Quoted.whole hbody) (fun _ _ _ _ => trivial) rfl ?_
      ⟨'"', _, rfl, .inr (.inr (by decide))⟩⟩
    rw [Token.value?, Quoted.unescape_encode, String.ofList_toList]
    rfl

theorem Expr.Written.spells {expr : Expr} {source : String} (h : expr.Written source) :
    ∃ lexemes, Spells lexemes source.toList expr := by
  induction h with
  | literal hv => exact hv.spells
  | grouping _ ih =>
    obtain ⟨lexemes, hinner⟩ := ih
    exact ⟨_, by simpa using spells_grouping hinner⟩
  | unary _ ih =>
    obtain ⟨lexemes, hoperand⟩ := ih
    exact ⟨_, by simpa using spells_unary hoperand⟩
  | binary _ _ ihl ihr =>
    obtain ⟨before, hl⟩ := ihl
    obtain ⟨behind, hr⟩ := ihr
    exact ⟨_, by simpa using spells_binary hl hr⟩

/-! ## Reading back -/

theorem TokenStream.tokens_ofList_eof {tokens : List Token} (h : ∀ token ∈ tokens, ¬ token.isEof)
    (line : Nat) : (ofList (tokens ++ [.eof line])).tokens = tokens := by
  have hfront : ∀ token ∈ tokens, !token.isEof := by simpa using h
  rw [ofList, List.takeWhile_append_of_pos hfront]
  simp

theorem Spells.parse_eq {lexemes : List Lexeme} {text : List Char} {expr : Expr}
    (h : Spells lexemes text expr) (hs : expr.Stratified) (hn : expr.nesting ≤ nestingLimit) :
    parse (lexemes.filterMap Lexeme.token? ++ [.eof 0]) = .ok expr := by
  have htokens : ∀ token ∈ lexemes.filterMap Lexeme.token?, ¬ token.isEof := by
    intro token hm
    obtain ⟨lexeme, -, ht⟩ := List.mem_filterMap.1 hm
    exact Located.not_isEof_of_token? ht
  refine TokenStream.parse_eq_ok_iff.2 ⟨derives_iff.2 ⟨?_, hs, Nat.zero_le _⟩, hn⟩
  rw [TokenStream.tokens_ofList_eof htokens]
  exact h.yields

/-- What was parsed to a tree holds more than the end of the source. -/
theorem hasExpression_of_parse {tokens : List Token} {expr : Expr} (h : parse tokens = .ok expr) :
    hasExpression tokens := by
  obtain ⟨hd, -⟩ := TokenStream.parse_eq_ok_iff.1 h
  have hlength := congrArg List.length hd.yields
  rw [List.length_map, List.length_map] at hlength
  obtain ⟨token, hm⟩ := List.exists_mem_of_length_pos (hlength ▸ expr.yield_length_pos)
  have hmem : token ∈ tokens := (List.takeWhile_prefix _).mem hm
  refine List.any_eq_true.2 ⟨token, hmem, ?_⟩
  simpa using TokenStream.not_isEof_of_mem_ofList hm

theorem events_of_parse {source : String} {depth : Nat} {expr : Expr}
    (hr : (scan source depth).reports = []) (hp : parse (scan source depth).tokens = .ok expr) :
    (run source depth).events ⟨false, true⟩ = [.print expr.text] := by
  have hparsed : (run source depth).parsed? = some (.ok expr) := by
    rw [run, hasExpression_of_parse hp, hp]
    rfl
  have hscan : (run source depth).scan = scan source depth := rfl
  rw [Run.events, hparsed, hscan, hr]
  rfl

/-- A tree of the grammar's shape is read back from what is written for it, without a report, and
its printed form is all that is shown. -/
theorem parse_written {expr : Expr} {source : String} (hw : expr.Written source)
    (hs : expr.Stratified) (hn : expr.nesting ≤ 128) :
    (scan source 0).reports = [] ∧ (scan source 0).depth = 0 ∧
      parse (scan source 0).tokens = .ok expr ∧
      outputOf ((run source 0).events ⟨false, true⟩) = expr.text ++ "\n" ∧
      reportsOf ((run source 0).events ⟨false, true⟩) = [] := by
  obtain ⟨lexemes, hspells⟩ := hw.spells
  have harranged : Arranged lexemes source.toList := by
    simpa using hspells.arranged followsOperand_nil Arranged.nil
  obtain ⟨htokens, hreports, hdepth⟩ := scan_arranged harranged .nil
  rw [List.nil_append, String.ofList_toList] at htokens hreports hdepth
  have hcontents : (lexemes.filterMap Lexeme.token? ++ [Token.eof 0]).map Token.content =
      (scan source 0).tokens.map Token.content := by
    rw [htokens, List.map_append, List.map_filterMap]
    rfl
  have hparse := parse_ok_of_content hcontents (hspells.parse_eq hs hn)
  have hevents := events_of_parse hreports hparse
  refine ⟨hreports, hdepth, hparse, ?_, ?_⟩
  · rw [hevents]
    simp [outputOf, Event.written, String.join]
  · rw [hevents]
    rfl

theorem parse_written_marks :
    let numeral : Numeral := ⟨['1'], ['5'], ⟨by simp, by simp⟩, by simp⟩
    let expr : Expr := .binary (.unary .not (.literal (.string "\"//"))) .notEqual
      (.unary .negate (.grouping (.binary (.literal (.number numeral.value)) .divide
        (.literal .nil))))
    let source := "!\"\\\"//\"!=-(1.5/nil)"
    expr.Written source ∧ expr.Stratified ∧ expr.nesting ≤ 128 ∧
      (scan source 0).reports = [] ∧ (scan source 0).depth = 0 ∧
      parse (scan source 0).tokens = .ok expr ∧
      outputOf ((run source 0).events ⟨false, true⟩) = expr.text ++ "\n" ∧
      reportsOf ((run source 0).events ⟨false, true⟩) = [] := by
  intro numeral expr source
  have hstring : Value.Written (.string "\"//") "\"\\\"//\"" := .string _
  have hnumber : Value.Written (.number numeral.value) "1.5" := .number _
  have hwritten : expr.Written source :=
    .binary (.unary (.literal hstring)) (.unary (.grouping (.binary (.literal hnumber)
      (.literal .nil))))
  have hstratified : expr.Stratified :=
    ⟨⟨trivial, by decide⟩, ⟨⟨trivial, trivial, by decide, by decide⟩, by decide⟩, by decide,
      by decide⟩
  have hnesting : expr.nesting ≤ 128 := by decide
  exact ⟨hwritten, hstratified, hnesting, parse_written hwritten hstratified hnesting⟩

end LoxFrontEnd
