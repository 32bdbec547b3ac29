import LoxFrontEnd.Scan.Trivia

/-! # Trivia as a language

`Trivia d gap d'` says that `gap` separates lexemes: read with `d` block comments open it holds
only blanks, line comments and nested block comments, and leaves `d'` comments open. Skipping
passes the longest such text (`Cursor.skip_gap`). -/

namespace LoxFrontEnd
set_option autoImplicit false

def IsBlank (c : Char) : Prop := c = ' ' ∨ c = '\t' ∨ c = '\r' ∨ c = '\n'

/-- A line comment runs up to a line break or the end. Inside block comments only the two marks
count, and each takes both of its characters. -/
inductive Trivia : Nat → List Char → Nat → Prop
  | nil {depth : Nat} : Trivia depth [] depth
  | blank {c : Char} {text : List Char} {after : Nat} :
      IsBlank c → Trivia 0 text after → Trivia 0 (c :: text) after
  | lineComment {body text : List Char} {after : Nat} :
      '\n' ∉ body → (∀ c ∈ text.head?, c = '\n') → Trivia 0 text after →
      Trivia 0 ('/' :: '/' :: (body ++ text)) after
  | opening {depth : Nat} {text : List Char} {after : Nat} :
      Trivia (depth + 1) text after → Trivia depth ('/' :: '*' :: text) after
  | closing {depth : Nat} {text : List Char} {after : Nat} :
      Trivia depth text after → Trivia (depth + 1) ('*' :: '/' :: text) after
  | inside {depth : Nat} {c : Char} {text : List Char} {after : Nat} :
      ¬ ['/', '*'] <+: c :: text → ¬ ['*', '/'] <+: c :: text → Trivia (depth + 1) text after →
      Trivia (depth + 1) (c :: text) after

/-- A gap in front of `rest`: trivia that cannot be extended. -/
structure Gap (depth : Nat) (gap rest : List Char) (after : Nat) : Prop where
  trivia : Trivia depth gap after
  longest : ∀ longer after', longer <+: gap ++ rest → Trivia depth longer after' →
    longer.length ≤ gap.length

namespace Cursor

/-! ## What is skipped is trivia -/

def Region.Passes : Region → List Char → Nat → Prop
  | .code, gap, after => Trivia 0 gap after
  | .blockComment outer, gap, after => Trivia (outer + 1) gap after
  | .lineComment, gap, after => ∃ body text, gap = body ++ text ∧ '\n' ∉ body ∧
      (∀ c ∈ text.head?, c = '\n') ∧ Trivia 0 text after

theorem Region.passes_ofDepth {depth : Nat} {gap : List Char} {after : Nat} :
    (Region.ofDepth depth).Passes gap after ↔ Trivia depth gap after := by
  cases depth <;> rfl

theorem passes_skipFrom (line : Nat) (region : Region) (text : List Char) :
    ∃ gap, text = gap ++ (skipFrom line region text).rest ∧
      region.Passes gap (skipFrom line region text).depth := by
  fun_induction skipFrom line region text with
  | case1 line outer cs ih =>
    obtain ⟨gap, ht, hp⟩ := ih
    exact ⟨'/' :: '*' :: gap, by rw [List.cons_append, List.cons_append, ← ht], .opening hp⟩
  | case2 line outer cs ih =>
    obtain ⟨gap, ht, hp⟩ := ih
    exact ⟨'*' :: '/' :: gap, by rw [List.cons_append, List.cons_append, ← ht],
      .closing (Region.passes_ofDepth.1 hp)⟩
  | case3 line outer cs ih =>
    obtain ⟨gap, ht, hp⟩ := ih
    exact ⟨'\n' :: gap, by rw [List.cons_append, ← ht], .inside (by simp) (by simp) hp⟩
  | case4 line outer c cs hopen hclose hbreak ih =>
    obtain ⟨gap, ht, hp⟩ := ih
    refine ⟨c :: gap, by rw [List.cons_append, ← ht], .inside ?_ ?_ hp⟩
    · intro hm
      obtain ⟨rfl, tail, rfl⟩ := List.cons_prefix_cons.1 hm
      exact hopen _ rfl ht
    · intro hm
      obtain ⟨rfl, tail, rfl⟩ := List.cons_prefix_cons.1 hm
      exact hclose _ rfl ht
  | case5 => exact ⟨[], rfl, .nil⟩
  | case6 line cs ih =>
    obtain ⟨gap, ht, hp⟩ := ih
    exact ⟨'\n' :: gap, by rw [List.cons_append, ← ht], [], '\n' :: gap, rfl, by simp, by simp,
      .blank (by simp [IsBlank]) hp⟩
  | case7 line c cs hbreak ih =>
    obtain ⟨gap, ht, body, text, rfl, hb, hh, hp⟩ := ih
    have hb' : '\n' ∉ c :: body := by
      intro hm
      rcases List.mem_cons.1 hm with h | h
      · exact hbreak h.symm
      · exact hb h
    exact ⟨c :: (body ++ text), by rw [List.cons_append, ← ht], c :: body, text, rfl, hb', hh, hp⟩
  | case8 => exact ⟨[], rfl, [], [], rfl, by simp, by simp, .nil⟩
  | case9 line cs ih | case10 line cs ih | case11 line cs ih | case12 line cs ih =>
    obtain ⟨gap, ht, hp⟩ := ih
    exact ⟨_ :: gap, by rw [List.cons_append, ← ht], .blank (by simp [IsBlank]) hp⟩
  | case13 line cs ih =>
    obtain ⟨gap, ht, body, text, rfl, hb, hh, hp⟩ := ih
    exact ⟨'/' :: '/' :: (body ++ text), by rw [List.cons_append, List.cons_append, ← ht],
      .lineComment hb hh hp⟩
  | case14 line cs ih =>
    obtain ⟨gap, ht, hp⟩ := ih
    exact ⟨'/' :: '*' :: gap, by rw [List.cons_append, List.cons_append, ← ht], .opening hp⟩
  | case15 => exact ⟨[], rfl, .nil⟩

/-! ## Trivia is skipped -/

theorem skipFrom_opening (line depth : Nat) (cs : List Char) :
    skipFrom line (.ofDepth depth) ('/' :: '*' :: cs) = skipFrom line (.ofDepth (depth + 1)) cs := by
  cases depth <;> rfl

theorem skipFrom_closing (line depth : Nat) (cs : List Char) :
    skipFrom line (.ofDepth (depth + 1)) ('*' :: '/' :: cs) = skipFrom line (.ofDepth depth) cs :=
  rfl

theorem skipFrom_inside (line outer : Nat) {c : Char} {cs : List Char}
    (ho : ¬ ['/', '*'] <+: c :: cs) (hc : ¬ ['*', '/'] <+: c :: cs) :
    skipFrom line (.blockComment outer) (c :: cs) =
      skipFrom (line + lineBreaks [c]) (.blockComment outer) cs := by
  by_cases hn : c = '\n'
  · subst hn
    rw [skipFrom, lineBreaks_newline, lineBreaks_nil]
  · have hopen : ∀ tail, c = '/' → cs = '*' :: tail → False := by
      rintro tail rfl rfl
      exact ho ⟨tail, rfl⟩
    have hclose : ∀ tail, c = '*' → cs = '/' :: tail → False := by
      rintro tail rfl rfl
      exact hc ⟨tail, rfl⟩
    rw [skipFrom.eq_4 _ _ _ _ hopen hclose hn, lineBreaks_cons _ hn, lineBreaks_nil, Nat.add_zero]

theorem skipFrom_lineComment_append (line : Nat) {body : List Char} (text : List Char)
    (h : '\n' ∉ body) :
    skipFrom line .lineComment (body ++ text) = skipFrom line .lineComment text := by
  induction body with
  | nil => rfl
  | cons c cs ih =>
    have hc : c ≠ '\n' := fun hc => h (hc ▸ List.mem_cons_self)
    rw [List.cons_append, skipFrom.eq_7 _ _ _ hc, ih fun hm => h (List.mem_cons_of_mem c hm)]

theorem skipFrom_lineComment_break (line : Nat) (cs : List Char) :
    skipFrom line .lineComment ('\n' :: cs) = skipFrom line .code ('\n' :: cs) := rfl

/-- The last character of a gap can belong to a mark that the gap cuts in two. -/
theorem skipFrom_block_suffix (line outer : Nat) (c : Char) (cs : List Char) :
    (skipFrom line (.blockComment outer) (c :: cs)).rest <:+ cs := by
  by_cases ho : ['/', '*'] <+: c :: cs
  · obtain ⟨rfl, tail, rfl⟩ := List.cons_prefix_cons.1 ho
    have hs := skipFrom_suffix line (.ofDepth (outer + 2)) tail
    rw [← skipFrom_opening] at hs
    exact hs.trans (List.suffix_cons ..)
  by_cases hc : ['*', '/'] <+: c :: cs
  · obtain ⟨rfl, tail, rfl⟩ := List.cons_prefix_cons.1 hc
    have hs := skipFrom_suffix line (.ofDepth outer) tail
    rw [← skipFrom_closing] at hs
    exact hs.trans (List.suffix_cons ..)
  · rw [skipFrom_inside line outer ho hc]
    exact skipFrom_suffix ..

theorem skipFrom_suffix_of_trivia {depth : Nat} {gap : List Char} {after : Nat}
    (h : Trivia depth gap after) (line : Nat) (rest : List Char) :
    (skipFrom line (.ofDepth depth) (gap ++ rest)).rest <:+ rest := by
  induction h generalizing line with
  | nil => exact skipFrom_suffix ..
  | blank hc _ ih =>
    rcases hc with rfl | rfl | rfl | rfl <;> exact ih _
  | @lineComment body text after hb hh _ ih =>
    change (skipFrom line .lineComment (body ++ text ++ rest)).rest <:+ rest
    rw [List.append_assoc, skipFrom_lineComment_append line _ hb]
    cases text with
    | nil => exact skipFrom_suffix ..
    | cons c text =>
      obtain rfl : c = '\n' := hh c rfl
      rw [List.cons_append, skipFrom_lineComment_break]
      exact ih line
  | opening _ ih =>
    rw [List.cons_append, List.cons_append, skipFrom_opening]
    exact ih line
  | closing _ ih =>
    rw [List.cons_append, List.cons_append, skipFrom_closing]
    exact ih line
  | @inside depth c text after ho hc _ ih =>
    cases text with
    | nil => exact skipFrom_block_suffix ..
    | cons d text =>
      rw [List.cons_append]
      change (skipFrom line (.blockComment depth) _).rest <:+ rest
      have ho' : ¬ ['/', '*'] <+: c :: (d :: text ++ rest) := by simpa using ho
      have hc' : ¬ ['*', '/'] <+: c :: (d :: text ++ rest) := by simpa using hc
      rw [skipFrom_inside line depth ho' hc']
      exact ih _

theorem skip_gap (cursor : Cursor) :
    ∃ gap, cursor.rest = gap ++ cursor.skip.rest ∧
      Gap cursor.depth gap cursor.skip.rest cursor.skip.depth := by
  obtain ⟨gap, ht, hp⟩ := passes_skipFrom cursor.line (.ofDepth cursor.depth) cursor.rest
  refine ⟨gap, ht, Region.passes_ofDepth.1 hp, ?_⟩
  rintro longer after' ⟨more, hmore⟩ htrivia
  have hs := (skipFrom_suffix_of_trivia htrivia cursor.line more).length_le
  rw [hmore] at hs
  change _ = gap ++ cursor.skip.rest at ht
  rw [← ht] at hs hmore
  change cursor.skip.rest.length ≤ more.length at hs
  have hlen := congrArg List.length (hmore.trans ht)
  simp only [List.length_append] at hlen
  omega

end Cursor
end LoxFrontEnd
