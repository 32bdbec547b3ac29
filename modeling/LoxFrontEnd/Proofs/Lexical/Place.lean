import LoxFrontEnd.Proofs.Lexical.Shift

/-! # Where lexemes stand

Every unit of a scan stands somewhere in the source: behind the text that has been read before it
(`Cursor.placedIn`). What is left to read tells how much has been read, so a cursor keeps its
distance from the end of the text and the line breaks that are still to come (`Cursor.In`). Lines
follow from that: each unit is on the line that the breaks in front of it make (`scan_lines`). -/

namespace LoxFrontEnd
set_option autoImplicit false

/-- A unit, and the text of the source in front of it. -/
structure Placed where
  before : List Char
  unit : Located
  deriving DecidableEq

/-- What a unit takes of the source, together with all that stands in front of it. -/
def Placed.through (placed : Placed) : List Char := placed.before ++ placed.unit.lexeme.text

/-- The unit is a piece of the text, on the line that the breaks in front of it make. Nothing
stands behind a string that never ends. -/
structure Placed.CutFrom (placed : Placed) (text : List Char) : Prop where
  piece : placed.through <+: text
  line : placed.unit.line = 1 + lineBreaks placed.before
  unterminated : ∀ body, placed.unit.lexeme = .unterminated body → placed.through = text

namespace Cursor

/-- The cursor has come to its place in a text from the beginning, and has counted the line breaks
that it has passed. -/
structure In (cursor : Cursor) (text : List Char) : Prop where
  suffix : cursor.rest <:+ text
  line : cursor.line + lineBreaks cursor.rest = 1 + lineBreaks text

/-- The part of a text that a cursor in it has passed. -/
def passed (cursor : Cursor) (text : List Char) : List Char :=
  text.take (text.length - cursor.rest.length)

/-- The units from a cursor on, each at its place in the text. -/
def placedIn (text : List Char) (cursor : Cursor) : List Placed :=
  match _h : cursor.skip.lexeme? with
  | some (unit, behind) => ⟨cursor.skip.passed text, unit⟩ :: placedIn text behind
  | none => []
termination_by cursor.rest.length
decreasing_by exact skip_lexeme?_rest_length _h

theorem placedIn_of_some (text : List Char) {cursor behind : Cursor} {unit : Located}
    (h : cursor.skip.lexeme? = some (unit, behind)) :
    cursor.placedIn text = ⟨cursor.skip.passed text, unit⟩ :: behind.placedIn text := by
  rw [placedIn]
  split
  · next h' =>
    obtain ⟨rfl, rfl⟩ := Prod.mk.inj (Option.some.inj (h.symm.trans h'))
    rfl
  · next h' => rw [h] at h'; cases h'

theorem placedIn_of_none (text : List Char) {cursor : Cursor} (h : cursor.skip.lexeme? = none) :
    cursor.placedIn text = [] := by
  rw [placedIn]
  split
  · next h' => rw [h] at h'; cases h'
  · rfl

theorem map_unit_placedIn (text : List Char) (cursor : Cursor) :
    (cursor.placedIn text).map Placed.unit = cursor.units.1 := by
  induction cursor using units_induction with
  | finish cursor h => rw [placedIn_of_none text h, units_of_none h]; rfl
  | unit cursor unit behind h ih =>
    rw [placedIn_of_some text h, units_of_some h, List.map_cons, ih]

/-! ## Cursors in a text -/

section
variable {cursor behind : Cursor} {text : List Char} {unit : Located}

theorem start_in (text : List Char) (depth : Nat) : (start text depth).In text :=
  ⟨List.suffix_refl text, rfl⟩

theorem In.skip (h : cursor.In text) : cursor.skip.In text :=
  ⟨cursor.skip_suffix.trans h.suffix, cursor.line_skip.trans h.line⟩

theorem rest_of_lexeme? (h : cursor.lexeme? = some (unit, behind)) :
    cursor.rest = unit.lexeme.text ++ behind.rest := by
  obtain ⟨c, cs, hrest, rfl, rfl⟩ := lexeme?_eq_some h
  rw [hrest]
  exact (Lexeme.text_append_split c cs).symm

theorem line_of_lexeme? (h : cursor.lexeme? = some (unit, behind)) :
    unit.line = cursor.line ∧ behind.line = cursor.line + lineBreaks unit.lexeme.text := by
  obtain ⟨c, cs, -, rfl, rfl⟩ := lexeme?_eq_some h
  exact ⟨rfl, rfl⟩

theorem rest_of_unterminated {body : List Char} (h : cursor.lexeme? = some (unit, behind))
    (hu : unit.lexeme = .unterminated body) : behind.rest = [] := by
  obtain ⟨c, cs, -, rfl, rfl⟩ := lexeme?_eq_some h
  exact Lexeme.rest_of_unterminated hu

theorem In.of_lexeme? (h : cursor.In text) (hu : cursor.lexeme? = some (unit, behind)) :
    behind.In text := by
  have hrest := rest_of_lexeme? hu
  have hline := h.line
  refine ⟨List.IsSuffix.trans ⟨_, hrest.symm⟩ h.suffix, ?_⟩
  rw [hrest, lineBreaks_append] at hline
  rw [(line_of_lexeme? hu).2]
  omega

theorem In.passed_append (h : cursor.In text) : cursor.passed text ++ cursor.rest = text := by
  obtain ⟨front, rfl⟩ := h.suffix
  rw [passed, List.length_append, Nat.add_sub_cancel, List.take_left]

theorem In.line_eq (h : cursor.In text) : cursor.line = 1 + lineBreaks (cursor.passed text) := by
  have hline := h.line
  have hbreaks := congrArg lineBreaks h.passed_append
  rw [lineBreaks_append] at hbreaks
  omega

theorem In.passed_behind (h : cursor.In text) (hu : cursor.lexeme? = some (unit, behind)) :
    behind.passed text = cursor.passed text ++ unit.lexeme.text := by
  have hwhole : behind.passed text ++ behind.rest =
      cursor.passed text ++ unit.lexeme.text ++ behind.rest :=
    calc behind.passed text ++ behind.rest
        = text := (h.of_lexeme? hu).passed_append
      _ = cursor.passed text ++ cursor.rest := h.passed_append.symm
      _ = cursor.passed text ++ unit.lexeme.text ++ behind.rest := by
        rw [rest_of_lexeme? hu, List.append_assoc]
  exact List.append_cancel_right hwhole

theorem passed_skip (text : List Char) (cursor : Cursor) :
    cursor.passed text <+: cursor.skip.passed text := by
  have hlen := cursor.skip_suffix.length_le
  exact List.take_prefix_take_left (by omega)

end

/-! ## Units at their places -/

variable {text : List Char}

theorem In.of_mem_placedIn {cursor : Cursor} (h : cursor.In text) :
    ∀ placed ∈ cursor.placedIn text, placed.CutFrom text := by
  induction cursor using units_induction with
  | finish cursor hnone => simp [placedIn_of_none text hnone]
  | unit cursor unit behind hsome ih =>
    have hthrough : cursor.skip.passed text ++ unit.lexeme.text ++ behind.rest = text := by
      rw [List.append_assoc, ← rest_of_lexeme? hsome, h.skip.passed_append]
    rw [placedIn_of_some text hsome]
    refine List.forall_mem_cons.2 ⟨⟨⟨behind.rest, hthrough⟩, ?_, fun body hb => ?_⟩,
      ih (h.skip.of_lexeme? hsome)⟩
    · rw [(line_of_lexeme? hsome).1, h.skip.line_eq]
    · have hrest : behind.rest = [] := rest_of_unterminated hsome hb
      rwa [hrest, List.append_nil] at hthrough

theorem In.passed_prefix_before {cursor : Cursor} (h : cursor.In text) :
    ∀ placed ∈ cursor.placedIn text, cursor.passed text <+: placed.before := by
  induction cursor using units_induction with
  | finish cursor hnone => simp [placedIn_of_none text hnone]
  | unit cursor unit behind hsome ih =>
    rw [placedIn_of_some text hsome]
    refine List.forall_mem_cons.2 ⟨cursor.passed_skip text, fun placed hm => ?_⟩
    have hlater := ih (h.skip.of_lexeme? hsome) placed hm
    rw [h.skip.passed_behind hsome] at hlater
    exact (cursor.passed_skip text).trans ((List.prefix_append ..).trans hlater)

/-- Units follow one another: none starts before the one in front of it has ended. -/
theorem In.pairwise_placedIn {cursor : Cursor} (h : cursor.In text) :
    (cursor.placedIn text).Pairwise fun first later => first.through <+: later.before := by
  induction cursor using units_induction with
  | finish cursor hnone => rw [placedIn_of_none text hnone]; exact List.Pairwise.nil
  | unit cursor unit behind hsome ih =>
    have hbehind := h.skip.of_lexeme? hsome
    rw [placedIn_of_some text hsome]
    refine List.pairwise_cons.2 ⟨fun later hm => ?_, ih hbehind⟩
    rw [Placed.through, ← h.skip.passed_behind hsome]
    exact hbehind.passed_prefix_before later hm

end Cursor

/-! ## Lines -/

theorem lineBreaks_le_of_prefix {front text : List Char} (h : front <+: text) :
    lineBreaks front ≤ lineBreaks text := by
  obtain ⟨rest, rfl⟩ := h
  rw [lineBreaks_append]
  omega

/-- The line on which a unit ends. -/
def Located.lastLine (unit : Located) : Nat := unit.line + lineBreaks unit.lexeme.text

theorem Placed.CutFrom.lastLine {placed : Placed} {text : List Char} (h : placed.CutFrom text) :
    placed.unit.lastLine = 1 + lineBreaks placed.through := by
  have hline := h.line
  rw [Located.lastLine, through, lineBreaks_append]
  omega

theorem Cursor.units_pairwise {cursor : Cursor} {text : List Char} (h : cursor.In text) :
    cursor.units.1.Pairwise fun first later => first.lastLine ≤ later.line := by
  rw [← map_unit_placedIn text, List.pairwise_map]
  refine h.pairwise_placedIn.imp_of_mem fun {first later} hf hl hthrough => ?_
  rw [(h.of_mem_placedIn _ hf).lastLine, (h.of_mem_placedIn _ hl).line]
  have hbreaks := lineBreaks_le_of_prefix hthrough
  omega

theorem Cursor.lastLine_le_finish {cursor : Cursor} {text : List Char} (h : cursor.In text) :
    ∀ unit ∈ cursor.units.1, unit.lastLine ≤ cursor.units.2.line := by
  intro unit hm
  rw [← map_unit_placedIn text] at hm
  obtain ⟨placed, hp, rfl⟩ := List.mem_map.1 hm
  have hcut := h.of_mem_placedIn placed hp
  rw [hcut.lastLine, cursor.line_units, h.line]
  have hbreaks := lineBreaks_le_of_prefix hcut.piece
  omega

/-- A fault is reported on one of the lines that its unit is on. -/
theorem Located.line_of_error? {unit : Located} {error : ScanError}
    (h : unit.error? = some error) : unit.line ≤ error.line ∧ error.line ≤ unit.lastLine := by
  cases error with
  | unexpectedCharacter line c =>
    obtain rfl := error?_unexpected_iff.1 h
    exact ⟨Nat.le_refl _, Nat.le_add_right ..⟩
  | unterminatedString line =>
    obtain ⟨body, hb, rfl⟩ := error?_unterminated_iff.1 h
    have htext : lineBreaks unit.lexeme.text = lineBreaks body := by
      rw [hb]
      exact lineBreaks_cons body (by decide)
    show _ ≤ unit.line + lineBreaks body ∧ unit.line + lineBreaks body ≤ _
    rw [lastLine, htext]
    omega

theorem Scan.lines_tokens (source : String) (depth : Nat) :
    ((scan source depth).tokens.map Token.line).Pairwise (· ≤ ·) := by
  have hstart := Cursor.start_in source.toList depth
  have hunits := Cursor.units_pairwise hstart
  have hfinish := Cursor.lastLine_le_finish hstart
  have hle (unit : Located) : unit.line ≤ unit.lastLine := Nat.le_add_right ..
  rw [tokens, List.map_append, List.pairwise_append]
  refine ⟨?_, List.pairwise_singleton .., ?_⟩
  · rw [List.pairwise_map, List.pairwise_filterMap]
    refine hunits.imp fun {first later} hlines token ht token' ht' => ?_
    rw [Located.line_of_token? ht, Located.line_of_token? ht']
    exact Nat.le_trans (hle first) hlines
  · intro line hline last hlast
    obtain ⟨token, htoken, rfl⟩ := List.mem_map.1 hline
    obtain ⟨unit, hunit, ht⟩ := List.mem_filterMap.1 htoken
    obtain rfl := List.mem_singleton.1 hlast
    rw [Located.line_of_token? ht]
    exact Nat.le_trans (hle unit) (hfinish unit hunit)

theorem Scan.lines_reports (source : String) (depth : Nat) :
    ((scan source depth).reports.map Report.line).Pairwise (· ≤ ·) := by
  have hunits := Cursor.units_pairwise (Cursor.start_in source.toList depth)
  rw [reports, errors, List.map_map, List.pairwise_map, List.pairwise_filterMap]
  refine hunits.imp fun {first later} hlines error he error' he' => ?_
  have hlast := (Located.line_of_error? he).2
  have hfirst := (Located.line_of_error? he').1
  show error.line ≤ error'.line
  omega

/-- The units of a source, each at its place. -/
def placedUnits (source : String) (depth : Nat) : List Placed :=
  (Cursor.start source.toList depth).placedIn source.toList

/-- Lines are exact. Every token and every unexpected character is on the line that the breaks in
front of it make. The end of the source and a string that never ends are told on the last line. So
neither the lines of tokens nor those of reports ever decrease. -/
theorem scan_lines (source : String) (depth : Nat) :
    let text := source.toList
    let scan := scan source depth
    scan.tokens = (placedUnits source depth).filterMap (·.unit.token?) ++
      [.eof (1 + lineBreaks text)] ∧
    scan.errors = (placedUnits source depth).filterMap (·.unit.error?) ∧
    (placedUnits source depth).Pairwise (fun first later => first.through <+: later.before) ∧
    (∀ placed ∈ placedUnits source depth,
      (∀ token, placed.unit.token? = some token →
        placed.before ++ token.lexeme.toList <+: text ∧
        token.line = 1 + lineBreaks placed.before) ∧
      (∀ line c, placed.unit.error? = some (.unexpectedCharacter line c) →
        placed.before ++ [c] <+: text ∧ line = 1 + lineBreaks placed.before) ∧
      ∀ line, placed.unit.error? = some (.unterminatedString line) →
        line = 1 + lineBreaks text) ∧
    (scan.tokens.map Token.line).Pairwise (· ≤ ·) ∧
    (scan.reports.map Report.line).Pairwise (· ≤ ·) := by
  intro text scan
  have hstart := Cursor.start_in text depth
  have hunits : scan.units = (placedUnits source depth).map Placed.unit :=
    (Cursor.map_unit_placedIn text _).symm
  have hfinish : scan.finish.line = 1 + lineBreaks text := Cursor.line_units (.start text depth)
  refine ⟨?_, ?_, hstart.pairwise_placedIn, fun placed hm => ?_, Scan.lines_tokens source depth,
    Scan.lines_reports source depth⟩
  · rw [Scan.tokens, hunits, hfinish, List.filterMap_map]
    rfl
  · rw [Scan.errors, hunits, List.filterMap_map]
    rfl
  · have hcut := hstart.of_mem_placedIn placed hm
    have hpiece := hcut.piece
    refine ⟨fun token ht => ?_, fun line c he => ?_, fun line he => ?_⟩
    · rw [(Located.lexeme_of_token? ht).2, Located.line_of_token? ht]
      exact ⟨hpiece, hcut.line⟩
    · have hline := hcut.line
      rw [Placed.through, Located.error?_unexpected_iff.1 he] at hpiece
      rw [Located.error?_unexpected_iff.1 he] at hline
      exact ⟨hpiece, hline⟩
    · obtain ⟨body, hb, rfl⟩ := Located.error?_unterminated_iff.1 he
      have hlast := hcut.lastLine
      rw [hcut.unterminated body hb, Located.lastLine, hb] at hlast
      rw [← hlast]
      exact congrArg (placed.unit.line + ·) (lineBreaks_cons body (by decide)).symm

end LoxFrontEnd
