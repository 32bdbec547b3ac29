import LoxFrontEnd.Scan.Basic
import LoxFrontEnd.Proofs.Lexical.Language
import LoxFrontEnd.Proofs.Lexical.Trivia

/-! # How a source is laid out

A source is gaps and units in turn. Asking a cursor for outcomes up to the first end mark
(`Cursor.Calls`) cuts the source into the longest gaps and the longest lexemes, and loses nothing:
`scan_layout` gives the cut of every source at every depth. -/

namespace LoxFrontEnd
set_option autoImplicit false

/-- The outcome that belongs to a unit in front of `rest`. A fault stands only where no lexeme
does. -/
inductive IsUnit (unit rest : List Char) : Except ScanError Token → Prop
  | token {token : Token} :
      token.lexeme.toList = unit → LongestLexeme unit rest token.kind → IsUnit unit rest (.ok token)
  | unexpected {line : Nat} {c : Char} :
      unit = [c] → NoLexeme (unit ++ rest) →
      IsUnit unit rest (.error (.unexpectedCharacter line c))
  | unterminated {line : Nat} {body : List Char} :
      unit = '"' :: body → rest = [] → NoLexeme (unit ++ rest) →
      IsUnit unit rest (.error (.unterminatedString line))

/-- `Layout d text outcomes d'`: the text is gaps and units in turn, where the first gap starts
inside `d` block comments and the last one ends inside `d'`. -/
inductive Layout : Nat → List Char → List (Except ScanError Token) → Nat → Prop
  | finish {depth after : Nat} {gap : List Char} {token : Token} :
      Gap depth gap [] after → token.kind = .eof → token.lexeme = "" →
      Layout depth gap [.ok token] after
  | unit {depth after : Nat} {gap unit rest : List Char} {outcome : Except ScanError Token}
      {outcomes : List (Except ScanError Token)} :
      Gap depth gap (unit ++ rest) 0 → unit ≠ [] → IsUnit unit rest outcome →
      Layout 0 rest outcomes after →
      Layout depth (gap ++ (unit ++ rest)) (outcome :: outcomes) after

/-- The outcomes of asking a cursor again and again, up to the first end mark. -/
inductive Cursor.Calls : Cursor → List (Except ScanError Token) → Cursor → Prop
  | finish {cursor behind : Cursor} {token : Token} :
      cursor.next = (.ok token, behind) → token.isEof → Calls cursor [.ok token] behind
  | more {cursor behind last : Cursor} {outcome : Except ScanError Token}
      {outcomes : List (Except ScanError Token)} :
      cursor.next = (outcome, behind) → (∀ token, outcome = .ok token → ¬ token.isEof) →
      Calls behind outcomes last → Calls cursor (outcome :: outcomes) last

namespace Lexeme

/-! ## One unit -/

theorem outcome_of_kind? {lexeme : Lexeme} {kind : Kind} (line : Nat)
    (h : lexeme.kind? = some kind) :
    ∃ token, lexeme.outcome line = .ok token ∧ token.kind = kind ∧
      token.lexeme.toList = lexeme.text := by
  cases lexeme <;> simp only [kind?, Option.some.injEq, reduceCtorEq] at h
  all_goals exact ⟨_, rfl, h, String.toList_ofList⟩

theorem kind?_ne_eof (lexeme : Lexeme) : lexeme.kind? ≠ some .eof := by
  cases lexeme <;> simp [kind?]
  unfold Kind.ofWord
  split <;> simp

theorem isUnit_split (line : Nat) (c : Char) (cs : List Char) :
    IsUnit (split c cs).1.text (split c cs).2 ((split c cs).1.outcome line) := by
  have htext := text_append_split c cs
  cases hk : (split c cs).1.kind? with
  | some kind =>
    obtain ⟨token, hout, hkind, hlex⟩ := outcome_of_kind? line hk
    rw [hout]
    refine .token hlex ⟨hkind ▸ isLexeme_split hk, fun longer kind' hp hl => ?_⟩
    rw [htext] at hp
    exact (length_le_split hl hp).2
  | none =>
    have hno : NoLexeme ((split c cs).1.text ++ (split c cs).2) := by
      intro lexeme kind hp hl
      rw [htext] at hp
      obtain ⟨⟨kind', hk'⟩, -⟩ := length_le_split hl hp
      rw [hk] at hk'
      cases hk'
    rcases fault_cases hk with ⟨rfl, hc⟩ | hs
    · rw [split_unterminated hc] at hno ⊢
      exact .unterminated rfl rfl hno
    · rw [split_stray cs hs] at hno ⊢
      exact .unexpected rfl hno

theorem not_isEof_of_outcome {lexeme : Lexeme} {line : Nat} {token : Token}
    (h : lexeme.outcome line = .ok token) : ¬ token.isEof := by
  intro he
  cases hk : lexeme.kind? with
  | some kind =>
    obtain ⟨token', hout, hkind, -⟩ := outcome_of_kind? line hk
    rw [h, Except.ok.injEq] at hout
    have heof : token.kind = .eof := by simpa [Token.isEof] using he
    rw [← hout, heof] at hkind
    exact kind?_ne_eof lexeme (hkind ▸ hk)
  | none => cases lexeme <;> simp [kind?, outcome] at hk h

end Lexeme

theorem Located.not_isEof_of_token? {unit : Located} {token : Token}
    (h : unit.token? = some token) : ¬ token.isEof := by
  unfold Located.token? at h
  split at h
  · next hout =>
    obtain rfl := Option.some.inj h
    exact Lexeme.not_isEof_of_outcome hout
  · cases h

theorem Located.lexeme_of_token? {unit : Located} {token : Token} (h : unit.token? = some token) :
    (∃ kind, unit.lexeme.kind? = some kind) ∧ token.lexeme.toList = unit.lexeme.text := by
  obtain ⟨line, lexeme⟩ := unit
  cases lexeme with
  | stray c | unterminated body => cases h
  | _ =>
    obtain rfl := Option.some.inj h
    exact ⟨⟨_, rfl⟩, String.toList_ofList⟩

theorem Located.line_of_token? {unit : Located} {token : Token} (h : unit.token? = some token) :
    token.line = unit.line := by
  obtain ⟨line, lexeme⟩ := unit
  cases lexeme with
  | stray c | unterminated body => cases h
  | _ =>
    obtain rfl := Option.some.inj h
    rfl

theorem Located.error?_unexpected_iff {unit : Located} {line : Nat} {c : Char} :
    unit.error? = some (.unexpectedCharacter line c) ↔ unit = ⟨line, .stray c⟩ := by
  obtain ⟨line', lexeme⟩ := unit
  cases lexeme <;> simp [error?, outcome, Lexeme.outcome]

theorem Located.error?_unterminated_iff {unit : Located} {line : Nat} :
    unit.error? = some (.unterminatedString line) ↔
      ∃ body, unit.lexeme = .unterminated body ∧ line = unit.line + lineBreaks body := by
  obtain ⟨line', lexeme⟩ := unit
  cases lexeme <;> simp [error?, outcome, Lexeme.outcome, eq_comm]

namespace Cursor

/-! ## All units -/

theorem units_induction {motive : Cursor → Prop}
    (finish : ∀ cursor, cursor.skip.lexeme? = none → motive cursor)
    (unit : ∀ cursor unit behind, cursor.skip.lexeme? = some (unit, behind) → motive behind →
      motive cursor)
    (cursor : Cursor) : motive cursor := by
  induction hn : cursor.rest.length using Nat.strongRecOn generalizing cursor with
  | ind n ih =>
    cases h : cursor.skip.lexeme? with
    | none => exact finish cursor h
    | some p =>
      obtain ⟨u, behind⟩ := p
      have hlt := skip_lexeme?_rest_length h
      exact unit cursor u behind h (ih _ (hn ▸ hlt) _ rfl)

def outcomes (cursor : Cursor) : List (Except ScanError Token) :=
  cursor.units.1.map Located.outcome ++ [.ok (.eof cursor.units.2.line)]

theorem outcomes_of_some {cursor behind : Cursor} {unit : Located}
    (h : cursor.skip.lexeme? = some (unit, behind)) :
    cursor.outcomes = unit.outcome :: behind.outcomes := by
  rw [outcomes, outcomes, units_of_some h]
  rfl

theorem outcomes_of_none {cursor : Cursor} (h : cursor.skip.lexeme? = none) :
    cursor.outcomes = [.ok (.eof cursor.skip.line)] := by
  rw [outcomes, units_of_none h]
  rfl

theorem lexeme?_eq_some {cursor behind : Cursor} {unit : Located}
    (h : cursor.lexeme? = some (unit, behind)) :
    ∃ c cs, cursor.rest = c :: cs ∧ unit = ⟨cursor.line, (Lexeme.split c cs).1⟩ ∧
      behind = ⟨(Lexeme.split c cs).2,
        cursor.line + lineBreaks (Lexeme.split c cs).1.text, cursor.depth⟩ := by
  unfold lexeme? at h
  split at h
  · cases h
  · next c cs hr =>
    obtain ⟨rfl, rfl⟩ : _ = unit ∧ _ = behind := by simpa using h
    exact ⟨c, cs, hr, rfl, rfl⟩

theorem depth_skip_of_rest {cursor : Cursor} (h : cursor.skip.rest ≠ []) :
    cursor.skip.depth = 0 := by
  by_cases hd : cursor.skip.depth = 0
  · exact hd
  · exact absurd (rest_skip_of_depth hd) h

theorem exists_split_of_mem_units {cursor : Cursor} {unit : Located}
    (h : unit ∈ cursor.units.1) : ∃ c cs, unit.lexeme = (Lexeme.split c cs).1 := by
  induction cursor using units_induction with
  | finish cursor hnone => simp [units_of_none hnone] at h
  | unit cursor first behind hsome ih =>
    rw [units_of_some hsome] at h
    rcases List.mem_cons.1 h with rfl | h
    · obtain ⟨c, cs, -, hunit, -⟩ := lexeme?_eq_some hsome
      exact ⟨c, cs, congrArg Located.lexeme hunit⟩
    · exact ih h

theorem calls_outcomes (cursor : Cursor) : Calls cursor cursor.outcomes cursor.units.2 := by
  induction cursor using units_induction with
  | finish cursor h =>
    rw [outcomes_of_none h, units_of_none h]
    exact .finish (by rw [next, h]) rfl
  | unit cursor unit behind h ih =>
    rw [outcomes_of_some h, units_of_some h]
    refine .more (by rw [next, h]) (fun token hout => ?_) ih
    exact Lexeme.not_isEof_of_outcome hout

theorem layout_outcomes (cursor : Cursor) :
    Layout cursor.depth cursor.rest cursor.outcomes cursor.units.2.depth := by
  induction cursor using units_induction with
  | finish cursor h =>
    obtain ⟨gap, hrest, hgap⟩ := cursor.skip_gap
    rw [outcomes_of_none h, units_of_none h, hrest]
    rw [lexeme?_eq_none_iff] at h
    rw [h] at hgap ⊢
    rw [List.append_nil]
    exact .finish hgap rfl rfl
  | unit cursor unit behind h ih =>
    obtain ⟨gap, hrest, hgap⟩ := cursor.skip_gap
    obtain ⟨c, cs, hskip, rfl, hbehind⟩ := lexeme?_eq_some h
    have hdepth : cursor.skip.depth = 0 := depth_skip_of_rest (by simp [hskip])
    have htext := Lexeme.text_append_split c cs
    have hrest' : behind.rest = (Lexeme.split c cs).2 := by rw [hbehind]
    have hdepth' : behind.depth = 0 := by rw [hbehind, hdepth]
    rw [outcomes_of_some h, units_of_some h, hrest]
    rw [hskip, ← htext, hdepth] at hgap
    rw [hskip, ← htext]
    rw [hrest', hdepth'] at ih
    exact .unit hgap (Lexeme.split_text_ne_nil c cs) (Lexeme.isUnit_split _ c cs) ih

end Cursor

/-! ## Scanning -/

/-- Scanning calls for outcomes up to the end mark, and these cut the source into the longest gaps
and the longest lexemes. -/
theorem scan_layout (source : String) (depth : Nat) :
    ∃ outcomes last, Cursor.Calls (.start source.toList depth) outcomes last ∧
      Layout depth source.toList outcomes last.depth ∧ (scan source depth).depth = last.depth :=
  ⟨_, _, Cursor.calls_outcomes _, Cursor.layout_outcomes (.start source.toList depth), rfl⟩

end LoxFrontEnd
