import LoxFrontEnd.Proofs.Lexical.Boundary

/-! # Lexemes in an arrangement

A text that is put together from lexemes and the spacing between them is cut into just these
lexemes again (`Cursor.units_arranged`), whatever the spacing is, as long as every lexeme ends in front
of what follows it. Where a lexeme starts there is nothing to skip (`Cursor.skipFrom_whole`), and
spacing is skipped to its end (`Cursor.skipFrom_spacing`). -/

namespace LoxFrontEnd
set_option autoImplicit false

/-- Text without lexemes that leaves nothing open: it closes the `depth` block comments that it
starts in, and each of its line comments ends with a line break. -/
inductive Spacing : Nat → List Char → Prop
  | nil : Spacing 0 []
  | blank {c : Char} {text : List Char} : IsBlank c → Spacing 0 text → Spacing 0 (c :: text)
  | lineComment {body text : List Char} :
      '\n' ∉ body → Spacing 0 text → Spacing 0 ('/' :: '/' :: (body ++ '\n' :: text))
  | opening {depth : Nat} {text : List Char} :
      Spacing (depth + 1) text → Spacing depth ('/' :: '*' :: text)
  | closing {depth : Nat} {text : List Char} :
      Spacing depth text → Spacing (depth + 1) ('*' :: '/' :: text)
  | inside {depth : Nat} {c : Char} {text : List Char} :
      ¬ ['/', '*'] <+: c :: text → ¬ ['*', '/'] <+: c :: text → Spacing (depth + 1) text →
      Spacing (depth + 1) (c :: text)

/-- Texts that are lexemes in their order, each with spacing behind it. -/
inductive Arranged : List Lexeme → List Char → Prop
  | nil : Arranged [] []
  | cons {lexeme : Lexeme} {lexemes : List Lexeme} {gap text : List Char} :
      lexeme.Whole → Spacing 0 gap → lexeme.StandsBefore (gap ++ text) → Arranged lexemes text →
      Arranged (lexeme :: lexemes) (lexeme.text ++ (gap ++ text))

theorem Symbol.extend_slash (cs : List Char) : slash.extend cs = (slash, cs) := by
  unfold extend
  split <;> rfl

namespace Cursor

/-! ## Spacing is skipped -/

theorem skipFrom_blank {c : Char} (h : IsBlank c) (line : Nat) (cs : List Char) :
    skipFrom line .code (c :: cs) = skipFrom (line + lineBreaks [c]) .code cs := by
  rcases h with rfl | rfl | rfl | rfl <;> simp [skipFrom, lineBreaks]

theorem skipFrom_lineComment_line (line : Nat) {body : List Char} (hb : '\n' ∉ body)
    (cs : List Char) :
    skipFrom line .lineComment (body ++ '\n' :: cs) =
      skipFrom (line + lineBreaks (body ++ ['\n'])) .code cs := by
  have hlines : lineBreaks (body ++ ['\n']) = 1 := by
    rw [lineBreaks_append, lineBreaks, List.count_eq_zero_of_not_mem hb]
    rfl
  rw [skipFrom_lineComment_append line _ hb, hlines, skipFrom]

theorem skipFrom_spacing {depth : Nat} {gap : List Char} (h : Spacing depth gap) (line : Nat)
    (rest : List Char) :
    skipFrom line (.ofDepth depth) (gap ++ rest) = skipFrom (line + lineBreaks gap) .code rest := by
  induction h generalizing line with
  | nil => rfl
  | @blank c text hc _ ih =>
    rw [← List.singleton_append, lineBreaks_append, ← Nat.add_assoc, ← ih]
    exact skipFrom_blank hc line _
  | @lineComment body text hb _ ih =>
    have hlines : lineBreaks ('/' :: '/' :: (body ++ '\n' :: text)) =
        lineBreaks (body ++ ['\n']) + lineBreaks text := by
      rw [← lineBreaks_append, List.append_assoc]
      rfl
    calc skipFrom line .code ('/' :: '/' :: (body ++ '\n' :: text) ++ rest)
        = skipFrom line .lineComment (body ++ '\n' :: (text ++ rest)) := by
          rw [List.cons_append, List.cons_append, List.append_assoc]; rfl
      _ = skipFrom (line + lineBreaks (body ++ ['\n'])) .code (text ++ rest) :=
          skipFrom_lineComment_line line hb _
      _ = skipFrom (line + lineBreaks ('/' :: '/' :: (body ++ '\n' :: text))) .code rest := by
          rw [hlines, ← Nat.add_assoc]
          exact ih _
  | opening _ ih =>
    rw [List.cons_append, List.cons_append, skipFrom_opening, ih]
    rfl
  | closing _ ih =>
    rw [List.cons_append, List.cons_append, skipFrom_closing, ih]
    rfl
  | @inside depth c text ho hc hs ih =>
    -- Inside a comment spacing is not used up, so both characters of a mark belong to it.
    have htext : text ≠ [] := by
      rintro rfl
      cases hs
    obtain ⟨d, text, rfl⟩ := List.exists_cons_of_ne_nil htext
    have ho' : ¬ ['/', '*'] <+: c :: (d :: text ++ rest) := by simpa using ho
    have hc' : ¬ ['*', '/'] <+: c :: (d :: text ++ rest) := by simpa using hc
    rw [← List.singleton_append, lineBreaks_append, ← Nat.add_assoc, ← ih]
    exact skipFrom_inside line depth ho' hc'

/-! ## Nothing is skipped in front of a lexeme -/

theorem skipFrom_whole {lexeme : Lexeme} {rest : List Char} (hw : lexeme.Whole)
    (h : lexeme.StandsBefore rest) (line : Nat) :
    skipFrom line .code (lexeme.text ++ rest) = ⟨lexeme.text ++ rest, line, 0⟩ := by
  obtain ⟨c, cs, htext, hsplit⟩ := Lexeme.split_of_whole hw h
  obtain ⟨⟨kind, hkind⟩, -⟩ := hw
  have hblank : ¬ IsBlank c := by
    intro hb
    have hstray : (Lexeme.split c cs).1 = .stray c := by
      rcases hb with rfl | rfl | rfl | rfl <;> rfl
    rw [hsplit] at hstray
    obtain rfl : lexeme = .stray c := hstray
    cases hkind
  -- A slash in front is a lexeme of its own, and does not stand in front of a mark.
  have hslash {d : Char} {tail : List Char} (hd : c :: cs = '/' :: d :: tail) :
      d ≠ '/' ∧ d ≠ '*' := by
    obtain ⟨rfl, rfl⟩ := List.cons.inj hd
    rw [Lexeme.split_symbol _ (s := .slash) rfl, Symbol.extend_slash] at hsplit
    obtain ⟨rfl, rfl⟩ := Prod.mk.inj hsplit
    exact (h d rfl).2 rfl
  rw [htext]
  have hfirst {b : Char} (hb : IsBlank b) (tail : List Char) (heq : c :: cs = b :: tail) : False :=
    hblank ((List.cons.inj heq).1 ▸ hb)
  exact skipFrom.eq_15 _ _ (hfirst (.inl rfl)) (hfirst (.inr (.inr (.inl rfl))))
    (hfirst (.inr (.inl rfl))) (hfirst (.inr (.inr (.inr rfl))))
    (fun tail heq => (hslash heq).1 rfl) (fun tail heq => (hslash heq).2 rfl)

theorem skip_whole {depth : Nat} {lead : List Char} (hlead : Spacing depth lead)
    {lexeme : Lexeme} {rest : List Char} (hw : lexeme.Whole) (h : lexeme.StandsBefore rest)
    (line : Nat) :
    skip ⟨lead ++ (lexeme.text ++ rest), line, depth⟩ =
      ⟨lexeme.text ++ rest, line + lineBreaks lead, 0⟩ := by
  change skipFrom line (.ofDepth depth) (lead ++ (lexeme.text ++ rest)) = _
  rw [skipFrom_spacing hlead, skipFrom_whole hw h]

/-! ## Units -/

theorem units_whole {depth : Nat} {lead : List Char} (hlead : Spacing depth lead)
    {lexeme : Lexeme} {rest : List Char} (hw : lexeme.Whole) (h : lexeme.StandsBefore rest)
    (line : Nat) :
    units ⟨lead ++ (lexeme.text ++ rest), line, depth⟩ =
      let line := line + lineBreaks lead
      let behind := units ⟨rest, line + lineBreaks lexeme.text, 0⟩
      (⟨line, lexeme⟩ :: behind.1, behind.2) := by
  obtain ⟨c, cs, htext, hsplit⟩ := Lexeme.split_of_whole hw h
  have hskip := skip_whole hlead hw h line
  refine units_of_some ?_
  rw [hskip, lexeme?_cons htext, hsplit]

theorem units_arranged {lexemes : List Lexeme} {text : List Char} (h : Arranged lexemes text)
    {depth : Nat} {lead : List Char} (hlead : Spacing depth lead) (line : Nat) :
    (units ⟨lead ++ text, line, depth⟩).1.map Located.lexeme = lexemes ∧
      (units ⟨lead ++ text, line, depth⟩).2.depth = 0 := by
  -- The spacing behind a lexeme leads to the next one.
  induction h generalizing depth lead line with
  | nil =>
    have hskip : skip ⟨lead ++ [], line, depth⟩ = ⟨[], line + lineBreaks lead, 0⟩ :=
      skipFrom_spacing hlead line []
    rw [units_of_none (by rw [hskip]; rfl), hskip]
    exact ⟨rfl, rfl⟩
  | @cons lexeme lexemes gap text hw hgap hs _ ih =>
    rw [units_whole hlead hw hs]
    obtain ⟨hlexemes, hdepth⟩ := ih hgap (line + lineBreaks lead + lineBreaks lexeme.text)
    exact ⟨congrArg (lexeme :: ·) hlexemes, hdepth⟩

end Cursor
end LoxFrontEnd
