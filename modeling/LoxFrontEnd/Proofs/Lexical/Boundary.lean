import LoxFrontEnd.Proofs.Lexical.Layout
import LoxFrontEnd.Proofs.Lexical.Seam

/-! # Scanning across a boundary

What follows a lexeme does not change it when a blank comes first, unless it is a string that
still waits for its quote (`StartsBlank.standsBefore`). A tail that also ends every line comment
(`EndsLine`) leaves what stands in front of it as it is: the units of the whole are the units of
the front, then the units of the tail from where the front ends (`Cursor.units_append`). -/

namespace LoxFrontEnd
set_option autoImplicit false

def StartsBlank (tail : List Char) : Prop := ∀ c ∈ tail.head?, IsBlank c

theorem IsBlank.spec {c : Char} (h : IsBlank c) :
    ¬ isWordPart c ∧ ¬ c.isDigit ∧ c ≠ '.' ∧ c ≠ '=' ∧ c ≠ '/' ∧ c ≠ '*' := by
  rcases h with rfl | rfl | rfl | rfl <;> decide

/-- Every lexeme ends in front of a blank, but a string that still waits for its quote. -/
theorem StartsBlank.standsBefore {tail : List Char} (ht : StartsBlank tail) {lexeme : Lexeme}
    (hu : ∀ body, lexeme ≠ .unterminated body) : lexeme.StandsBefore tail := by
  intro c hc
  obtain ⟨hword, hdigit, hpoint, hequal, hslash, hstar⟩ := (ht c hc).spec
  cases lexeme with
  | word text => exact hword
  | number text => exact ⟨hdigit, hpoint⟩
  | quoted body | stray d => trivial
  | symbol s => exact ⟨fun _ => hequal, fun _ => ⟨hslash, hstar⟩⟩
  | unterminated body => exact absurd rfl (hu body)

/-- A comment mark does not reach into the tail. -/
theorem StartsBlank.exists_of_append_eq {tail : List Char} (ht : StartsBlank tail) {b : Char}
    (hb : b = '/' ∨ b = '*') {cs rest : List Char} (h : cs ++ tail = b :: rest) :
    ∃ rest', cs = b :: rest' := by
  cases cs with
  | nil =>
    have hspec := (ht b (by rw [← List.nil_append tail, h]; rfl)).spec.2.2.2.2
    rcases hb with rfl | rfl
    · exact absurd rfl hspec.1
    · exact absurd rfl hspec.2
  | cons d cs =>
    obtain ⟨rfl, -⟩ := List.cons.inj h
    exact ⟨cs, rfl⟩

/-! ## Lexemes -/

theorem close?_append_eq_none {cs tail : List Char} (h : Quoted.close? cs = none)
    (hq : '"' ∉ tail) : Quoted.close? (cs ++ tail) = none := by
  rw [Option.eq_none_iff_forall_ne_some]
  rintro ⟨body, rest⟩ hc
  have hbody := stringBody_of_close? hc
  -- The closing quote would stand in front of the tail, and close the string there already.
  rcases List.append_eq_append_iff.1 (Quoted.append_of_close? hc) with
    ⟨middle, -, rfl⟩ | ⟨middle, rfl, hrest⟩
  · exact hq (by simp)
  · cases middle with
    | nil => exact hq (by rw [← List.nil_append tail, ← hrest]; exact List.mem_cons_self)
    | cons c middle =>
      obtain ⟨rfl, -⟩ := List.cons.inj hrest
      rw [hbody.close?_append middle] at h
      cases h

namespace Lexeme

theorem split_unterminated_append {c : Char} {cs body tail : List Char} (hq : '"' ∉ tail)
    (hu : (split c cs).1 = .unterminated body) :
    (split c (cs ++ tail)).1 = .unterminated (body ++ tail) := by
  obtain ⟨rfl, hc⟩ := close?_of_unterminated hu
  rw [split_unterminated hc] at hu
  obtain rfl : cs = body := by simpa using hu
  rw [split_unterminated (close?_append_eq_none hc hq)]

end Lexeme

/-! ## Skipping -/

/-- A tail that starts with a blank and behaves behind a line comment as it does outside. -/
structure EndsLine (tail : List Char) : Prop where
  startsBlank : StartsBlank tail
  lineComment : ∀ line, Cursor.skipFrom line .lineComment tail = Cursor.skipFrom line .code tail

/-- A string that never ends is the only unit that reaches over a boundary. -/
def Located.Complete (unit : Located) : Prop := ∀ body, unit.lexeme ≠ .unterminated body

namespace Cursor

def append (cursor : Cursor) (tail : List Char) : Cursor :=
  ⟨cursor.rest ++ tail, cursor.line, cursor.depth⟩

/-- Where skipping stops with a tail behind: it goes on only if it has used up the front. -/
def resume (tail : List Char) (stop : Cursor) : Cursor :=
  if stop.rest = [] then (stop.append tail).skip else stop.append tail

theorem skipFrom_append {tail : List Char} (ht : EndsLine tail) (line : Nat) (region : Region)
    (text : List Char) :
    skipFrom line region (text ++ tail) = (skipFrom line region text).resume tail := by
  fun_induction skipFrom line region text with
  | case4 line outer c cs ho hc hb ih =>
    rw [List.cons_append, skipFrom.eq_4 _ _ _ _ ?_ ?_ hb, ih]
    · rintro rest rfl hr
      obtain ⟨rest', rfl⟩ := ht.startsBlank.exists_of_append_eq (.inr rfl) hr
      exact ho rest' rfl rfl
    · rintro rest rfl hr
      obtain ⟨rest', rfl⟩ := ht.startsBlank.exists_of_append_eq (.inl rfl) hr
      exact hc rest' rfl rfl
  | case5 line outer => rfl
  | case7 line c cs hb ih => rw [List.cons_append, skipFrom.eq_7 _ _ _ hb, ih]
  | case8 line => exact ht.lineComment line
  | case15 line cs h1 h2 h3 h4 h5 h6 =>
    cases cs with
    | nil => rfl
    | cons c cs =>
      have hfirst {d : Char} (h : ∀ rest, c :: cs = d :: rest → False) (rest : List Char)
          (hr : c :: (cs ++ tail) = d :: rest) : False :=
        h cs (by rw [(List.cons.inj hr).1])
      have hsecond {b : Char} (hb : b = '/' ∨ b = '*')
          (h : ∀ rest, c :: cs = '/' :: b :: rest → False) (rest : List Char)
          (hr : c :: (cs ++ tail) = '/' :: b :: rest) : False := by
        obtain ⟨rfl, hrest⟩ := List.cons.inj hr
        obtain ⟨rest', rfl⟩ := ht.startsBlank.exists_of_append_eq hb hrest
        exact h rest' rfl
      rw [List.cons_append, skipFrom.eq_15 _ _ (hfirst h1) (hfirst h2) (hfirst h3) (hfirst h4)
        (hsecond (.inl rfl) h5) (hsecond (.inr rfl) h6)]
      rfl
  | _ => rename_i ih; rw [← ih]; rfl

theorem skip_append {tail : List Char} (ht : EndsLine tail) (cursor : Cursor) :
    (cursor.append tail).skip = cursor.skip.resume tail := skipFrom_append ht ..

/-! ## Units -/

theorem units_congr {cursor cursor' : Cursor} (h : cursor.skip = cursor'.skip) :
    cursor.units = cursor'.units := by
  cases hl : cursor.skip.lexeme? with
  | none =>
    have hl' := hl
    rw [h] at hl'
    rw [units_of_none hl, units_of_none hl', h]
  | some p =>
    obtain ⟨unit, behind⟩ := p
    have hl' := hl
    rw [h] at hl'
    rw [units_of_some hl, units_of_some hl']

theorem lexeme?_cons {cursor : Cursor} {c : Char} {cs : List Char} (h : cursor.rest = c :: cs) :
    cursor.lexeme? = some (⟨cursor.line, (Lexeme.split c cs).1⟩,
      ⟨(Lexeme.split c cs).2, cursor.line + lineBreaks (Lexeme.split c cs).1.text,
        cursor.depth⟩) := by
  simp only [lexeme?, h]

theorem lexeme?_append {tail : List Char} (ht : StartsBlank tail) {cursor behind : Cursor}
    {unit : Located} (h : cursor.lexeme? = some (unit, behind)) (hu : unit.Complete) :
    (cursor.append tail).lexeme? = some (unit, behind.append tail) := by
  obtain ⟨c, cs, hrest, rfl, rfl⟩ := lexeme?_eq_some h
  have happend : (cursor.append tail).rest = c :: (cs ++ tail) := by
    rw [append, hrest, List.cons_append]
  rw [lexeme?_cons happend, Lexeme.split_append (ht.standsBefore hu)]
  rfl

theorem skip_append_of_some {tail : List Char} (ht : EndsLine tail) {cursor behind : Cursor}
    {unit : Located} (h : cursor.skip.lexeme? = some (unit, behind)) :
    (cursor.append tail).skip = cursor.skip.append tail := by
  obtain ⟨c, cs, hrest, -, -⟩ := lexeme?_eq_some h
  rw [skip_append ht, resume, if_neg (by simp [hrest])]

theorem skip_lexeme?_append {tail : List Char} (ht : EndsLine tail) {cursor behind : Cursor}
    {unit : Located} (h : cursor.skip.lexeme? = some (unit, behind)) (hu : unit.Complete) :
    (cursor.append tail).skip.lexeme? = some (unit, behind.append tail) := by
  rw [skip_append_of_some ht h]
  exact lexeme?_append ht.startsBlank h hu

theorem units_append {tail : List Char} (ht : EndsLine tail) (cursor : Cursor)
    (hu : ∀ unit ∈ cursor.units.1, unit.Complete) :
    (cursor.append tail).units =
      (cursor.units.1 ++ (cursor.units.2.append tail).units.1,
        (cursor.units.2.append tail).units.2) := by
  -- Skipping goes on into the tail only behind the last unit of the front.
  induction cursor using units_induction with
  | finish cursor h =>
    have hskip := skip_append ht cursor
    rw [resume, if_pos (lexeme?_eq_none_iff.1 h)] at hskip
    rw [units_of_none h, units_congr hskip]
    rfl
  | unit cursor unit behind h ih =>
    rw [units_of_some h] at hu
    have hnext := skip_lexeme?_append ht h (hu unit List.mem_cons_self)
    rw [units_of_some hnext, units_of_some h, ih fun u hm => hu u (List.mem_cons_of_mem unit hm)]
    rfl

/-- A string that is left open in front of a tail without quotes is left open in the whole. -/
theorem complete_of_append {tail : List Char} (ht : EndsLine tail) (hq : '"' ∉ tail)
    (cursor : Cursor) (hu : ∀ unit ∈ (cursor.append tail).units.1, unit.Complete) :
    ∀ unit ∈ cursor.units.1, unit.Complete := by
  induction cursor using units_induction with
  | finish cursor h => simp [units_of_none h]
  | unit cursor unit behind h ih =>
    have hcomplete : unit.Complete := by
      intro body hb
      obtain ⟨c, cs, hrest, hunit, -⟩ := lexeme?_eq_some h
      rw [hunit] at hb
      have happend : (cursor.append tail).skip.rest = c :: (cs ++ tail) := by
        rw [skip_append_of_some ht h, append, hrest, List.cons_append]
      rw [units_of_some (lexeme?_cons happend)] at hu
      exact hu _ List.mem_cons_self _ (Lexeme.split_unterminated_append hq hb)
    rw [units_of_some (skip_lexeme?_append ht h hcomplete)] at hu
    rw [units_of_some h]
    intro u hm
    rcases List.mem_cons.1 hm with rfl | hm
    · exact hcomplete
    · exact ih (fun u hm => hu u (List.mem_cons_of_mem _ hm)) u hm

end Cursor
end LoxFrontEnd
