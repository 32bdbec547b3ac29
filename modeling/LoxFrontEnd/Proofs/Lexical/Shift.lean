import LoxFrontEnd.Proofs.Lexical.Layout

/-! # Scanning on a later line

A text that starts further down is scanned to the same units, each further down by as much
(`Cursor.units_shift`), and so to the same tokens and reports. The line where scanning ends is
that of the cursor plus the line breaks in front of it (`Cursor.line_units`). -/

namespace LoxFrontEnd
set_option autoImplicit false

def Token.shift (n : Nat) (token : Token) : Token := { token with line := token.line + n }

def Report.shift (n : Nat) (report : Report) : Report := { report with line := report.line + n }

def ScanError.shift (n : Nat) : ScanError → ScanError
  | .unexpectedCharacter line c => .unexpectedCharacter (line + n) c
  | .unterminatedString line => .unterminatedString (line + n)

def shiftOutcome (n : Nat) : Except ScanError Token → Except ScanError Token
  | .ok token => .ok (token.shift n)
  | .error error => .error (error.shift n)

def Located.shift (n : Nat) (unit : Located) : Located := { unit with line := unit.line + n }

def Cursor.shift (n : Nat) (cursor : Cursor) : Cursor := { cursor with line := cursor.line + n }

/-- A scan of a text that starts `n` lines further down. -/
def Scan.shift (n : Nat) (scan : Scan) : Scan :=
  ⟨scan.units.map (Located.shift n), scan.finish.shift n⟩

namespace Cursor

theorem skipFrom_shift (n line : Nat) (region : Region) (text : List Char) :
    skipFrom (line + n) region text = (skipFrom line region text).shift n := by
  fun_induction skipFrom line region text with
  | case4 line outer c cs ho hc hb ih => rw [skipFrom.eq_4 _ _ _ _ ho hc hb, ih]
  | case7 line c cs hb ih => rw [skipFrom.eq_7 _ _ _ hb, ih]
  | case15 line cs h1 h2 h3 h4 h5 h6 => rw [skipFrom.eq_15 _ _ h1 h2 h3 h4 h5 h6]; rfl
  | case3 line outer cs ih | case6 line cs ih | case12 line cs ih =>
    rw [skipFrom, Nat.add_right_comm, ih]
  | case5 | case8 => rfl
  | _ line => rename_i ih; rw [skipFrom, ih]

theorem skip_shift (n : Nat) (cursor : Cursor) : (cursor.shift n).skip = cursor.skip.shift n :=
  skipFrom_shift ..

theorem lexeme?_shift (n : Nat) (cursor : Cursor) :
    (cursor.shift n).lexeme? =
      cursor.lexeme?.map fun p => (p.1.shift n, p.2.shift n) := by
  unfold lexeme?
  cases hr : cursor.rest with
  | nil => simp [shift, hr]
  | cons c cs => simp [shift, hr, Located.shift, Nat.add_right_comm]

theorem units_shift (n : Nat) (cursor : Cursor) :
    (cursor.shift n).units = (cursor.units.1.map (Located.shift n), cursor.units.2.shift n) := by
  induction cursor using units_induction with
  | finish cursor h =>
    have hs : (cursor.shift n).skip.lexeme? = none := by rw [skip_shift, lexeme?_shift, h]; rfl
    rw [units_of_none h, units_of_none hs, skip_shift]
    rfl
  | unit cursor unit behind h ih =>
    have hs : (cursor.shift n).skip.lexeme? = some (unit.shift n, behind.shift n) := by
      rw [skip_shift, lexeme?_shift, h]; rfl
    rw [units_of_some h, units_of_some hs, ih]
    rfl

theorem line_units (cursor : Cursor) :
    cursor.units.2.line = cursor.line + lineBreaks cursor.rest := by
  induction cursor using units_induction with
  | finish cursor h =>
    have hline := cursor.line_skip
    rw [lexeme?_eq_none_iff] at h
    rw [h, lineBreaks_nil, Nat.add_zero] at hline
    rw [units_of_none (lexeme?_eq_none_iff.2 h), hline]
  | unit cursor unit behind h ih =>
    have hline := cursor.line_skip
    obtain ⟨c, cs, hskip, -, rfl⟩ := lexeme?_eq_some h
    rw [hskip, ← Lexeme.text_append_split c cs, lineBreaks_append] at hline
    rw [units_of_some h, ih]
    simp only
    omega

theorem rest_units (cursor : Cursor) : cursor.units.2.rest = [] := by
  induction cursor using units_induction with
  | finish cursor h => rw [units_of_none h, lexeme?_eq_none_iff.1 h]
  | unit cursor unit behind h ih => rw [units_of_some h, ih]

end Cursor

/-! ## Tokens and reports -/

theorem Located.outcome_shift (n : Nat) (unit : Located) :
    (unit.shift n).outcome = shiftOutcome n unit.outcome := by
  obtain ⟨line, lexeme⟩ := unit
  cases lexeme <;> try rfl
  simp only [outcome, shift, Lexeme.outcome, shiftOutcome, ScanError.shift, Nat.add_right_comm]

theorem Cursor.next_shift (n : Nat) (cursor : Cursor) :
    (cursor.shift n).next = (shiftOutcome n cursor.next.1, cursor.next.2.shift n) := by
  rw [next, next, skip_shift, lexeme?_shift]
  cases cursor.skip.lexeme? with
  | none => rfl
  | some p => exact congrArg (·, p.2.shift n) (p.1.outcome_shift n)

theorem Located.token?_shift (n : Nat) (unit : Located) :
    (unit.shift n).token? = unit.token?.map (Token.shift n) := by
  unfold Located.token?
  rw [outcome_shift]
  cases unit.outcome <;> rfl

theorem Located.error?_shift (n : Nat) (unit : Located) :
    (unit.shift n).error? = unit.error?.map (ScanError.shift n) := by
  unfold Located.error?
  rw [outcome_shift]
  cases unit.outcome <;> rfl

theorem ScanError.report_shift (n : Nat) (error : ScanError) :
    (error.shift n).report = error.report.shift n := by
  cases error <;> rfl

theorem Scan.tokens_shift (n : Nat) (scan : Scan) :
    (scan.shift n).tokens = scan.tokens.map (Token.shift n) := by
  have hunits : Located.token? ∘ Located.shift n = fun unit => unit.token?.map (Token.shift n) := by
    funext unit
    exact unit.token?_shift n
  rw [tokens, tokens, shift, List.filterMap_map, hunits, List.map_append, List.map_filterMap]
  rfl

theorem Scan.errors_shift (n : Nat) (scan : Scan) :
    (scan.shift n).errors = scan.errors.map (ScanError.shift n) := by
  have hunits : Located.error? ∘ Located.shift n =
      fun unit => unit.error?.map (ScanError.shift n) := by
    funext unit
    exact unit.error?_shift n
  rw [errors, errors, shift, List.filterMap_map, hunits, List.map_filterMap]

theorem Scan.reports_shift (n : Nat) (scan : Scan) :
    (scan.shift n).reports = scan.reports.map (Report.shift n) := by
  have herrors : ScanError.report ∘ ScanError.shift n = Report.shift n ∘ ScanError.report := by
    funext error
    exact error.report_shift n
  rw [reports, reports, errors_shift, List.map_map, List.map_map, herrors]

theorem units_scan (source : String) (above depth : Nat) :
    Cursor.units ⟨source.toList, 1 + above, depth⟩ =
      (((scan source depth).shift above).units, ((scan source depth).shift above).finish) :=
  Cursor.units_shift above (.start source.toList depth)

end LoxFrontEnd
