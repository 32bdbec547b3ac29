import LoxFrontEnd.Proofs.Lexical.Arrangement
import LoxFrontEnd.Proofs.Lexical.Lookahead
import LoxFrontEnd.Proofs.Lexical.Place

/-! # Recovery from unexpected characters

A character that starts no lexeme is reported and passed over, and to everything around it it is as
good as a blank. When the reported characters are blanked out, what stands in front of every other
lexeme is skipped all the same (`Cursor.skip_faded`). So the same units are scanned, without those
characters (`Cursor.units_blanked`). -/

namespace LoxFrontEnd
set_option autoImplicit false

/-! ## Skipping up to a lexeme -/

/-- There is nothing to skip in front of the text. -/
structure Unskipped (text : List Char) : Prop where
  blank : ∀ c ∈ text.head?, ¬ IsBlank c
  lineComment : ¬ ['/', '/'] <+: text
  blockComment : ¬ ['/', '*'] <+: text

namespace Cursor

theorem skipFrom_of_unskipped {text : List Char} (h : Unskipped text) (line : Nat) :
    skipFrom line .code text = ⟨text, line, 0⟩ := by
  have hfirst {c : Char} (hc : IsBlank c) (cs : List Char) (ht : text = c :: cs) : False :=
    h.blank c (by rw [ht]; rfl) hc
  exact skipFrom.eq_15 _ _ (hfirst (.inl rfl)) (hfirst (.inr (.inr (.inl rfl))))
    (hfirst (.inr (.inl rfl))) (hfirst (.inr (.inr (.inr rfl))))
    (fun cs ht => h.lineComment ⟨cs, ht.symm⟩) (fun cs ht => h.blockComment ⟨cs, ht.symm⟩)

/-- What has been passed between two lexemes, by the place where skipping begins. -/
def Region.Spaces : Region → List Char → Prop
  | .code, gap => Spacing 0 gap
  | .blockComment outer, gap => Spacing (outer + 1) gap
  | .lineComment, gap => ∃ body text, gap = body ++ '\n' :: text ∧ '\n' ∉ body ∧ Spacing 0 text

theorem Region.spaces_ofDepth {depth : Nat} {gap : List Char} :
    (Region.ofDepth depth).Spaces gap ↔ Spacing depth gap := by
  cases depth <;> rfl

/-- Skipping that does not come to the end has passed spacing and stands where there is nothing to
skip. -/
theorem spaces_skipFrom (line : Nat) (region : Region) (text : List Char)
    (h : (skipFrom line region text).rest ≠ []) :
    Unskipped (skipFrom line region text).rest ∧
      ∃ gap, text = gap ++ (skipFrom line region text).rest ∧ region.Spaces gap := by
  fun_induction skipFrom line region text with
  | case1 line outer cs ih =>
    obtain ⟨hstop, gap, ht, hs⟩ := ih h
    exact ⟨hstop, '/' :: '*' :: gap, by rw [List.cons_append, List.cons_append, ← ht], .opening hs⟩
  | case2 line outer cs ih =>
    obtain ⟨hstop, gap, ht, hs⟩ := ih h
    exact ⟨hstop, '*' :: '/' :: gap, by rw [List.cons_append, List.cons_append, ← ht],
      .closing (Region.spaces_ofDepth.1 hs)⟩
  | case3 line outer cs ih =>
    obtain ⟨hstop, gap, ht, hs⟩ := ih h
    exact ⟨hstop, '\n' :: gap, by rw [List.cons_append, ← ht], .inside (by simp) (by simp) hs⟩
  | case4 line outer c cs hopen hclose _ ih =>
    obtain ⟨hstop, gap, ht, hs⟩ := ih h
    refine ⟨hstop, c :: gap, by rw [List.cons_append, ← ht], .inside ?_ ?_ hs⟩
    · intro hm
      obtain ⟨rfl, tail, rfl⟩ := List.cons_prefix_cons.1 hm
      exact hopen _ rfl ht
    · intro hm
      obtain ⟨rfl, tail, rfl⟩ := List.cons_prefix_cons.1 hm
      exact hclose _ rfl ht
  | case5 | case8 => exact absurd rfl h
  | case6 line cs ih =>
    obtain ⟨hstop, gap, ht, hs⟩ := ih h
    exact ⟨hstop, '\n' :: gap, by rw [List.cons_append, ← ht], [], gap, rfl, by simp, hs⟩
  | case7 line c cs hbreak ih =>
    obtain ⟨hstop, gap, ht, body, tail, rfl, hb, hs⟩ := ih h
    have hb' : '\n' ∉ c :: body := List.not_mem_cons_of_ne_of_not_mem (Ne.symm hbreak) hb
    exact ⟨hstop, c :: (body ++ '\n' :: tail), by rw [List.cons_append, ← ht], c :: body, tail, rfl,
      hb', hs⟩
  | case9 line cs ih | case10 line cs ih | case11 line cs ih | case12 line cs ih =>
    obtain ⟨hstop, gap, ht, hs⟩ := ih h
    exact ⟨hstop, _ :: gap, by rw [List.cons_append, ← ht], .blank (by simp [IsBlank]) hs⟩
  | case13 line cs ih =>
    obtain ⟨hstop, gap, ht, body, tail, rfl, hb, hs⟩ := ih h
    exact ⟨hstop, '/' :: '/' :: (body ++ '\n' :: tail),
      by rw [List.cons_append, List.cons_append, ← ht], .lineComment hb hs⟩
  | case14 line cs ih =>
    obtain ⟨hstop, gap, ht, hs⟩ := ih h
    exact ⟨hstop, '/' :: '*' :: gap, by rw [List.cons_append, List.cons_append, ← ht], .opening hs⟩
  | case15 line cs h1 h2 h3 h4 h5 h6 =>
    refine ⟨⟨?blank, ?lineComment, ?blockComment⟩, [], rfl, .nil⟩
    case blank =>
      intro c hc hblank
      obtain ⟨tail, rfl⟩ := List.head?_eq_some_iff.1 (Option.mem_def.1 hc)
      rcases hblank with rfl | rfl | rfl | rfl
      · exact h1 tail rfl
      · exact h3 tail rfl
      · exact h2 tail rfl
      · exact h4 tail rfl
    case lineComment =>
      rintro ⟨tail, ht⟩
      exact h5 tail ht.symm
    case blockComment =>
      rintro ⟨tail, ht⟩
      exact h6 tail ht.symm

/-- The spacing that a cursor passes on the way to the next lexeme. -/
def gap (cursor : Cursor) : List Char := cursor.skip.passed cursor.rest

theorem gap_append (cursor : Cursor) : cursor.gap ++ cursor.skip.rest = cursor.rest := by
  obtain ⟨front, hfront⟩ := cursor.skip_suffix
  rw [gap, passed, ← hfront, List.length_append, Nat.add_sub_cancel, List.take_left]

theorem skip_of_rest {cursor : Cursor} (h : cursor.skip.rest ≠ []) :
    Unskipped cursor.skip.rest ∧ Spacing cursor.depth cursor.gap ∧
      cursor.skip = ⟨cursor.skip.rest, cursor.line + lineBreaks cursor.gap, 0⟩ := by
  obtain ⟨hstop, gap, hrest, hs⟩ :=
    spaces_skipFrom cursor.line (.ofDepth cursor.depth) cursor.rest h
  change Unskipped cursor.skip.rest at hstop
  have hgap : cursor.gap = gap :=
    List.append_cancel_right ((gap_append cursor).trans hrest)
  have hspacing : Spacing cursor.depth cursor.gap := hgap ▸ Region.spaces_ofDepth.1 hs
  have hskip : cursor.skip = skipFrom cursor.line (.ofDepth cursor.depth)
      (cursor.gap ++ cursor.skip.rest) := by
    rw [gap_append]
    rfl
  refine ⟨hstop, hspacing, ?_⟩
  rw [skipFrom_spacing hspacing, skipFrom_of_unskipped hstop] at hskip
  exact hskip

end Cursor

theorem Unskipped.faded {text faded : List Char} (h : Unskipped text) (hf : Faded text faded)
    (hhead : faded.head? = text.head?) : Unskipped faded where
  blank := by
    rw [hhead]
    exact h.blank
  lineComment := fun hp => h.lineComment (hf.isPrefix (by decide) hp)
  blockComment := fun hp => h.blockComment (hf.isPrefix (by decide) hp)

namespace Cursor
variable {cursor behind : Cursor} {unit : Located} {faded : List Char}

theorem rest_eq_of_skip (h : cursor.skip.lexeme? = some (unit, behind)) :
    cursor.rest = cursor.gap ++ (unit.lexeme.text ++ behind.rest) := by
  rw [← rest_of_lexeme? h, gap_append]

theorem skip_rest_ne_nil (h : cursor.skip.lexeme? = some (unit, behind)) :
    cursor.skip.rest ≠ [] := by
  intro hnil
  rw [lexeme?_eq_none_iff.2 hnil] at h
  cases h

/-- A unit is still met in its place when the text behind it has faded. -/
theorem skip_faded (h : cursor.skip.lexeme? = some (unit, behind))
    (hf : Faded behind.rest faded) :
    skip ⟨cursor.gap ++ (unit.lexeme.text ++ faded), cursor.line, cursor.depth⟩ =
        ⟨unit.lexeme.text ++ faded, cursor.skip.line, 0⟩ ∧
      lexeme? ⟨unit.lexeme.text ++ faded, cursor.skip.line, 0⟩ =
        some (unit, ⟨faded, behind.line, behind.depth⟩) := by
  obtain ⟨hstop, hspacing, hskip⟩ := skip_of_rest (skip_rest_ne_nil h)
  have hline : cursor.skip.line = cursor.line + lineBreaks cursor.gap := by rw [hskip]
  have hdepth : cursor.skip.depth = 0 := by rw [hskip]
  obtain ⟨c, cs, hrest, rfl, rfl⟩ := lexeme?_eq_some h
  obtain ⟨cs', htext, hsplit⟩ := Lexeme.split_faded hf
  have happend := Lexeme.text_append_split c cs
  have hstop' : Unskipped ((Lexeme.split c cs).1.text ++ faded) := by
    rw [hrest] at hstop
    refine hstop.faded ?_ (by rw [htext]; rfl)
    rw [← happend]
    exact hf.append _
  constructor
  · show skipFrom _ (.ofDepth _) _ = _
    rw [skipFrom_spacing hspacing, skipFrom_of_unskipped hstop', hline]
  · rw [lexeme?_cons htext, hsplit, hdepth]

end Cursor

/-! ## Blanking out -/

/-- The fault of an unexpected character, and no other. -/
def ScanError.isUnexpected : ScanError → Bool
  | .unexpectedCharacter _ _ => true
  | .unterminatedString _ => false

/-- The unit is reported as an unexpected character. -/
def Located.isUnexpected (unit : Located) : Bool := unit.error?.any ScanError.isUnexpected

theorem Located.isUnexpected_iff {unit : Located} :
    unit.isUnexpected ↔ ∃ c, unit.lexeme = .stray c := by
  obtain ⟨line, lexeme⟩ := unit
  cases lexeme <;> simp [isUnexpected, error?, outcome, Lexeme.outcome, ScanError.isUnexpected]

/-- The numbers of characters in front of those that are reported as unexpected. -/
def unexpectedOffsets (placed : List Placed) : List Nat :=
  (placed.filter fun placed => placed.unit.isUnexpected).map fun placed => placed.before.length

/-- Puts a blank for each character at one of the offsets, where `start` characters stand in front
of the text. -/
def blankAt (offsets : List Nat) (start : Nat) (text : List Char) : List Char :=
  text.mapIdx fun n c => if start + n ∈ offsets then ' ' else c

/-- The source with a blank for each character that its scan reports as unexpected. -/
def blankUnexpected (source : String) (depth : Nat) : String :=
  String.ofList (blankAt (unexpectedOffsets (placedUnits source depth)) 0 source.toList)

theorem blankAt_append (offsets : List Nat) (start : Nat) (front text : List Char) :
    blankAt offsets start (front ++ text) =
      blankAt offsets start front ++ blankAt offsets (start + front.length) text := by
  rw [blankAt, List.mapIdx_append]
  congr 2
  funext n c
  rw [Nat.add_assoc, Nat.add_comm front.length]

theorem blankAt_congr {offsets offsets' : List Nat} {start : Nat} (text : List Char)
    (h : ∀ n, n < text.length → (start + n ∈ offsets ↔ start + n ∈ offsets')) :
    blankAt offsets start text = blankAt offsets' start text := by
  refine List.ext_getElem (by simp [blankAt]) fun n hn hn' => ?_
  have hlength : n < text.length := by simpa [blankAt] using hn
  simp only [blankAt, List.getElem_mapIdx, h n hlength]

theorem blankAt_of_outside {offsets : List Nat} {start : Nat} {text : List Char}
    (h : ∀ n ∈ offsets, n < start ∨ start + text.length ≤ n) :
    blankAt offsets start text = text := by
  refine List.ext_getElem (by simp [blankAt]) fun n hn hn' => ?_
  have hnot : start + n ∉ offsets := fun hm => by
    have := h _ hm
    omega
  simp only [blankAt, List.getElem_mapIdx, hnot, if_false]

theorem unexpectedOffsets_cons (placed : Placed) (later : List Placed) :
    unexpectedOffsets (placed :: later) =
      if placed.unit.isUnexpected then placed.before.length :: unexpectedOffsets later
      else unexpectedOffsets later := by
  unfold unexpectedOffsets
  rw [List.filter_cons]
  split <;> rfl

/-- The text of a unit, or a blank in its place if it is reported as unexpected. -/
def Located.blanked (unit : Located) : List Char :=
  if unit.isUnexpected then [' '] else unit.lexeme.text

namespace Cursor

/-- What is left for a cursor, with a blank for each character that will be reported. -/
def blanked (text : List Char) (cursor : Cursor) : List Char :=
  blankAt (unexpectedOffsets (cursor.placedIn text)) (cursor.passed text).length cursor.rest

section
variable {cursor behind : Cursor} {unit : Located} {text : List Char}

theorem blanked_of_none (h : cursor.skip.lexeme? = none) : cursor.blanked text = cursor.rest := by
  rw [blanked, placedIn_of_none text h]
  exact blankAt_of_outside (by simp [unexpectedOffsets])

theorem length_passed_le_of_mem (h : cursor.In text) :
    ∀ n ∈ unexpectedOffsets (cursor.placedIn text), (cursor.passed text).length ≤ n := by
  intro n hm
  obtain ⟨placed, hp, rfl⟩ := List.mem_map.1 hm
  exact (h.passed_prefix_before placed (List.mem_filter.1 hp).1).length_le

theorem length_passed_skip (h : cursor.In text) :
    (cursor.skip.passed text).length = (cursor.passed text).length + cursor.gap.length := by
  have hwhole := congrArg List.length h.passed_append
  have hskip := congrArg List.length h.skip.passed_append
  have hgap := congrArg List.length cursor.gap_append
  simp only [List.length_append] at hwhole hskip hgap
  omega

theorem blanked_of_some (h : cursor.In text) (hsome : cursor.skip.lexeme? = some (unit, behind)) :
    cursor.blanked text = cursor.gap ++ (unit.blanked ++ behind.blanked text) := by
  have hbehind := h.skip.of_lexeme? hsome
  have hskip := length_passed_skip h
  have hunit : (behind.passed text).length =
      (cursor.passed text).length + cursor.gap.length + unit.lexeme.text.length := by
    rw [h.skip.passed_behind hsome, List.length_append, hskip]
  -- An offset of the rest lies behind the unit, and the unit's own at its first character.
  have hlater := length_passed_le_of_mem hbehind
  have hoffsets (n : Nat) : n ∈ unexpectedOffsets (cursor.placedIn text) ↔
      (unit.isUnexpected ∧ n = (cursor.passed text).length + cursor.gap.length) ∨
        n ∈ unexpectedOffsets (behind.placedIn text) := by
    rw [placedIn_of_some text hsome, unexpectedOffsets_cons, hskip]
    split <;> simp_all
  have hpos : 0 < unit.lexeme.text.length := by
    obtain ⟨c, cs, -, rfl, -⟩ := lexeme?_eq_some hsome
    exact List.length_pos_iff.2 (Lexeme.split_text_ne_nil c cs)
  rw [blanked, rest_eq_of_skip hsome, blankAt_append, blankAt_append]
  congr 1
  · refine blankAt_of_outside fun n hn => ?_
    rcases (hoffsets n).1 hn with ⟨-, rfl⟩ | hn
    · omega
    · have := hlater n hn
      omega
  congr 1
  · by_cases hu : unit.isUnexpected
    · obtain ⟨c, hc⟩ := Located.isUnexpected_iff.1 hu
      rw [Located.blanked, if_pos hu, hc]
      simp [Lexeme.text, blankAt, (hoffsets _).2 (.inl ⟨hu, rfl⟩)]
    · rw [Located.blanked, if_neg hu]
      refine blankAt_of_outside fun n hn => ?_
      rcases (hoffsets n).1 hn with ⟨hu', -⟩ | hn
      · exact absurd hu' hu
      · have := hlater n hn
        omega
  · rw [blanked, hunit]
    refine blankAt_congr _ fun n _ => ?_
    rw [hoffsets]
    refine ⟨fun hn => hn.resolve_left fun hn => ?_, .inr⟩
    omega

/-- Blanking out only touches characters that start nothing. -/
theorem faded_blanked (h : cursor.In text) : Faded cursor.rest (cursor.blanked text) := by
  induction cursor using units_induction with
  | finish cursor hnone =>
    rw [blanked_of_none hnone]
    exact .refl _
  | unit cursor unit behind hsome ih =>
    have hrest := ih (h.skip.of_lexeme? hsome)
    rw [blanked_of_some h hsome, rest_eq_of_skip hsome]
    refine Faded.append ?_ cursor.gap
    by_cases hu : unit.isUnexpected
    · obtain ⟨c, hc⟩ := Located.isUnexpected_iff.1 hu
      obtain ⟨d, ds, -, rfl, -⟩ := lexeme?_eq_some hsome
      have hstarts := Lexeme.startsNothing_of_stray hc
      rw [Located.blanked, if_pos hu, Lexeme.split_stray ds hstarts]
      exact .fade hstarts hrest
    · rw [Located.blanked, if_neg hu]
      exact hrest.append _

/-- A blank is passed to where the character that it stands for is passed to. -/
theorem skip_blank (h : cursor.skip.lexeme? = some (unit, behind)) (hu : unit.isUnexpected)
    (faded : List Char) :
    skip ⟨cursor.gap ++ ' ' :: faded, cursor.line, cursor.depth⟩ =
      skip ⟨faded, behind.line, behind.depth⟩ := by
  obtain ⟨hstop, hspacing, hskip⟩ := skip_of_rest (skip_rest_ne_nil h)
  obtain ⟨c, cs, hrest, rfl, rfl⟩ := lexeme?_eq_some h
  obtain ⟨d, hd⟩ := Located.isUnexpected_iff.1 hu
  have hbreak : c ≠ '\n' := by
    rintro rfl
    exact hstop.blank '\n' (by rw [hrest]; rfl) (.inr (.inr (.inr rfl)))
  have hline : lineBreaks (Lexeme.split c cs).1.text = 0 := by
    rw [Lexeme.split_stray cs (Lexeme.startsNothing_of_stray hd)]
    exact lineBreaks_cons [] hbreak
  calc skip ⟨cursor.gap ++ ' ' :: faded, cursor.line, cursor.depth⟩
      = skipFrom (cursor.line + lineBreaks cursor.gap) .code (' ' :: faded) :=
        skipFrom_spacing hspacing cursor.line _
    _ = skip ⟨faded, cursor.line + lineBreaks cursor.gap, 0⟩ := rfl
    _ = skip ⟨faded, cursor.skip.line + lineBreaks (Lexeme.split c cs).1.text,
          cursor.skip.depth⟩ := by
      rw [hline, hskip]
      rfl

/-- Blanked out, a text has the same units without those that are reported as unexpected. -/
theorem units_blanked (h : cursor.In text) :
    units ⟨cursor.blanked text, cursor.line, cursor.depth⟩ =
      (cursor.units.1.filter fun unit => !unit.isUnexpected, cursor.units.2) := by
  induction cursor using units_induction with
  | finish cursor hnone =>
    rw [blanked_of_none hnone, units_of_none hnone]
    rfl
  | unit cursor unit behind hsome ih =>
    have hbehind := h.skip.of_lexeme? hsome
    have ih := ih hbehind
    obtain ⟨hskip, hlexeme⟩ := skip_faded hsome (faded_blanked hbehind)
    rw [blanked_of_some h hsome, units_of_some hsome]
    by_cases hu : unit.isUnexpected
    · have hpassed := skip_blank hsome hu (behind.blanked text)
      rw [Located.blanked, if_pos hu, List.singleton_append, units_congr hpassed, ih,
        List.filter_cons_of_neg (by simpa using hu)]
    · rw [Located.blanked, if_neg hu, units_of_some (by rw [hskip, hlexeme]), ih,
        List.filter_cons_of_pos (by simpa using hu)]

end

/-- Nothing but the end of the text follows a string that never ends. -/
theorem units_unterminated {cursor : Cursor} {before behind : List Located} {unit : Located}
    {body : List Char} (h : cursor.units.1 = before ++ unit :: behind)
    (hu : unit.lexeme = .unterminated body) : behind = [] := by
  induction cursor using units_induction generalizing before with
  | finish cursor hnone => simp [units_of_none hnone] at h
  | unit cursor first later hsome ih =>
    rw [units_of_some hsome] at h
    cases before with
    | nil =>
      obtain ⟨rfl, rfl⟩ := List.cons.inj h
      have hrest : later.rest = [] := rest_of_unterminated hsome hu
      have hskip : later.skip.rest = [] := List.suffix_nil.1 (hrest ▸ later.skip_suffix)
      rw [units_of_none (lexeme?_eq_none_iff.2 hskip)]
    | cons _ before => exact ih (List.cons.inj h).2

end Cursor

/-! ## Scanning -/

/-- A string that never ends is reported at most once and last, and only the end mark follows
it. -/
structure UnterminatedLast (source : String) (depth : Nat) : Prop where
  reported : ∀ before line behind,
    (scan source depth).errors = before ++ .unterminatedString line :: behind → behind = []
  followed : ∀ before line behind, (Cursor.start source.toList depth).outcomes =
    before ++ .error (.unterminatedString line) :: behind →
    behind = [.ok (.eof (scan source depth).finish.line)]

theorem Located.unterminated_of_outcome {unit : Located} {line : Nat}
    (h : unit.outcome = .error (.unterminatedString line)) :
    ∃ body, unit.lexeme = .unterminated body := by
  have herror : unit.error? = some (.unterminatedString line) := by rw [error?, h]
  obtain ⟨body, hb, -⟩ := error?_unterminated_iff.1 herror
  exact ⟨body, hb⟩

theorem unterminatedLast (source : String) (depth : Nat) : UnterminatedLast source depth where
  reported := by
    intro before line behind h
    obtain ⟨front, back, hunits, -, hback⟩ := List.filterMap_eq_append_iff.1 h
    obtain ⟨passed, unit, later, rfl, -, he, rfl⟩ := List.filterMap_eq_cons_iff.1 hback
    obtain ⟨body, hb, -⟩ := Located.error?_unterminated_iff.1 he
    rw [← List.append_assoc] at hunits
    rw [Cursor.units_unterminated hunits hb]
    rfl
  followed := by
    intro before line behind h
    -- The end mark is the last outcome, so it comes behind the fault.
    rcases List.eq_nil_or_concat behind with rfl | ⟨inner, last, rfl⟩
    · have hlast := congrArg List.getLast? h
      simp [Cursor.outcomes] at hlast
    · rw [List.concat_eq_append, Cursor.outcomes, ← List.cons_append, ← List.append_assoc] at h
      obtain ⟨hunits, hlast⟩ := List.append_inj' h rfl
      obtain ⟨front, back, hsplit, -, hback⟩ := List.map_eq_append_iff.1 hunits
      obtain ⟨unit, later, rfl, hout, rfl⟩ := List.map_eq_cons_iff.1 hback
      obtain ⟨body, hb⟩ := Located.unterminated_of_outcome hout
      rw [Cursor.units_unterminated hsplit hb, ← List.singleton_inj.1 hlast]
      rfl

/-! ## Views of the units that are left -/

theorem filterMap_token?_expected (units : List Located) :
    (units.filter fun unit => !unit.isUnexpected).filterMap Located.token? =
      units.filterMap Located.token? := by
  rw [List.filterMap_filter]
  congr 1
  funext unit
  by_cases hu : unit.isUnexpected
  · obtain ⟨line, lexeme⟩ := unit
    obtain ⟨c, rfl⟩ := Located.isUnexpected_iff.1 hu
    rfl
  · rw [if_pos (by simpa using hu)]

theorem filterMap_error?_expected (units : List Located) :
    (units.filter fun unit => !unit.isUnexpected).filterMap Located.error? =
      (units.filterMap Located.error?).filter fun error => !error.isUnexpected := by
  rw [List.filterMap_filter, List.filter_filterMap]
  congr 1
  funext unit
  unfold Located.isUnexpected
  cases unit.error? with
  | none => rfl
  | some error => cases error <;> rfl

/-- Recovery treats an unexpected character as a blank. With a blank for every such character a
source is scanned to the same tokens and the same depth, and to the same reports without those of
the characters. -/
theorem scan_blankUnexpected (source : String) (depth : Nat) :
    let old := scan source depth
    let new := scan (blankUnexpected source depth) depth
    new.tokens = old.tokens ∧ new.depth = old.depth ∧
      new.reports = (old.errors.filter fun error => !error.isUnexpected).map ScanError.report ∧
      UnterminatedLast source depth ∧ UnterminatedLast (blankUnexpected source depth) depth := by
  intro old new
  have hstart := Cursor.start_in source.toList depth
  have hblanked : Cursor.start (blankUnexpected source depth).toList depth =
      ⟨(Cursor.start source.toList depth).blanked source.toList, 1, depth⟩ := by
    rw [blankUnexpected, String.toList_ofList]
    simp [Cursor.blanked, Cursor.passed, Cursor.start, placedUnits]
  have hunits := Cursor.units_blanked hstart
  have hnew : new = ⟨old.units.filter fun unit => !unit.isUnexpected, old.finish⟩ := by
    show scan _ _ = _
    rw [scan, hblanked]
    exact congrArg (fun p : List Located × Cursor => Scan.mk p.1 p.2) hunits
  refine ⟨?_, ?_, ?_, unterminatedLast _ _, unterminatedLast _ _⟩
  · rw [hnew, Scan.tokens, filterMap_token?_expected]
    rfl
  · rw [hnew]
    rfl
  · rw [hnew, Scan.reports, Scan.errors, filterMap_error?_expected]
    rfl

end LoxFrontEnd
