import LoxFrontEnd.Proofs.Lexical.Language

/-! # Seams between lexemes

What stands behind a lexeme does not change it as long as it starts with a character that cannot
go on with the lexeme (`Lexeme.EndsBefore`, `Lexeme.split_append`). A lexeme that has been split
off is split off whole from its own text (`Lexeme.whole_split`), so it stands for itself in front
of every such character. -/

namespace LoxFrontEnd
set_option autoImplicit false

/-! ## Runs of characters -/

section
variable {p : Char → Bool} {tail : List Char} (h : ∀ c ∈ tail.head?, ¬ p c)
include h

theorem takeWhile_append_of_head (cs : List Char) :
    (cs ++ tail).takeWhile p = cs.takeWhile p := by
  induction cs with
  | nil =>
    cases tail with
    | nil => rfl
    | cons c tail => rw [List.nil_append, List.takeWhile_cons_of_neg (h c rfl)]; rfl
  | cons c cs ih =>
    by_cases hc : p c
    · rw [List.cons_append, List.takeWhile_cons_of_pos hc, List.takeWhile_cons_of_pos hc, ih]
    · rw [List.cons_append, List.takeWhile_cons_of_neg hc, List.takeWhile_cons_of_neg hc]

theorem dropWhile_append_of_head (cs : List Char) :
    (cs ++ tail).dropWhile p = cs.dropWhile p ++ tail := by
  induction cs with
  | nil =>
    cases tail with
    | nil => rfl
    | cons c tail => rw [List.nil_append, List.dropWhile_cons_of_neg (h c rfl)]; rfl
  | cons c cs ih =>
    by_cases hc : p c
    · rw [List.cons_append, List.dropWhile_cons_of_pos hc, List.dropWhile_cons_of_pos hc, ih]
    · rw [List.cons_append, List.dropWhile_cons_of_neg hc, List.dropWhile_cons_of_neg hc]
      rfl

end

theorem splitNumber_append_of_head {tail : List Char}
    (h : ∀ c ∈ tail.head?, ¬ c.isDigit ∧ c ≠ '.') (cs : List Char) :
    splitNumber (cs ++ tail) = ((splitNumber cs).1, (splitNumber cs).2 ++ tail) := by
  have hdigit : ∀ c ∈ tail.head?, ¬ c.isDigit := fun c hc => (h c hc).1
  have htake := takeWhile_append_of_head hdigit cs
  have hdrop := dropWhile_append_of_head hdigit cs
  unfold splitNumber
  rw [htake, hdrop]
  rcases hd : cs.dropWhile Char.isDigit with _ | ⟨c, _ | ⟨d, rest⟩⟩
  · cases tail with
    | nil => rfl
    | cons c tail =>
      have hc := (h c rfl).2
      simp [hc]
  · cases tail with
    | nil => simp
    | cons d tail =>
      have hnot := hdigit d rfl
      by_cases hc : c = '.'
      · subst hc; simp [hnot]
      · simp [hc]
  · by_cases hc : c = '.'
    · subst hc
      simp only [List.cons_append, takeWhile_append_of_head hdigit,
        dropWhile_append_of_head hdigit]
      split <;> rfl
    · simp [hc]

theorem Symbol.extend_append_of_head {symbol : Symbol} {cs tail : List Char}
    (h : ∀ c ∈ tail.head?, (symbol.extend cs).1.withEqual? ≠ none → c ≠ '=') :
    symbol.extend (cs ++ tail) = ((symbol.extend cs).1, (symbol.extend cs).2 ++ tail) := by
  cases cs with
  | nil =>
    cases tail with
    | nil => rfl
    | cons c tail =>
      by_cases hc : c = '='
      · have hnone : symbol.withEqual? = none := by
          by_cases hw : symbol.withEqual? = none
          · exact hw
          · exact absurd hc (h c rfl hw)
        subst hc
        simp [Symbol.extend, hnone]
      · simp [Symbol.extend, hc]
  | cons c cs =>
    by_cases hc : c = '='
    · subst hc
      simp only [List.cons_append, Symbol.extend]
      split <;> rfl
    · simp [Symbol.extend, hc]

theorem Symbol.extend_fst (symbol : Symbol) (cs : List Char) :
    (symbol.extend cs).1 = symbol ∨ symbol.withEqual? = some (symbol.extend cs).1 := by
  unfold Symbol.extend
  split
  · split
    · next longer hw => exact .inr hw
    · exact .inl rfl
  · exact .inl rfl

theorem Symbol.extend_eq_of_text_eq {symbol : Symbol} {cs cs' : List Char}
    (h : (symbol.extend cs).1.text.toList = (symbol.extend cs').1.text.toList) :
    (symbol.extend cs).1 = (symbol.extend cs').1 := by
  have hlonger {longer : Symbol} (hw : symbol.withEqual? = some longer) :
      longer.text.toList ≠ symbol.text.toList := by
    rw [Symbol.text_of_withEqual? hw]
    simp
  rcases symbol.extend_fst cs with hs | hs <;> rcases symbol.extend_fst cs' with hs' | hs'
  · rw [hs, hs']
  · rw [hs] at h
    exact absurd h.symm (hlonger hs')
  · rw [hs'] at h
    exact absurd h (hlonger hs)
  · rw [hs] at hs'
    exact Option.some.inj hs'

/-! ## Lexemes and what follows them -/

namespace Lexeme

/-- The characters in front of which a lexeme stays as it is and starts no comment. -/
def EndsBefore : Lexeme → Char → Prop
  | word _, c => ¬ isWordPart c
  | number _, c => ¬ c.isDigit ∧ c ≠ '.'
  | quoted _, _ | stray _, _ => True
  | symbol s, c => (s.withEqual? ≠ none → c ≠ '=') ∧ (s = .slash → c ≠ '/' ∧ c ≠ '*')
  | unterminated _, _ => False

/-- The lexeme ends in front of whatever the text starts with. -/
def StandsBefore (lexeme : Lexeme) (text : List Char) : Prop :=
  ∀ c ∈ text.head?, lexeme.EndsBefore c

theorem split_append {c : Char} {cs tail : List Char} (h : (split c cs).1.StandsBefore tail) :
    split c (cs ++ tail) = ((split c cs).1, (split c cs).2 ++ tail) := by
  rcases split_cases c cs with hc | hc | ⟨rfl, body, rest, hc⟩ | ⟨rfl, hc⟩ | ⟨s, hc⟩ | hs
  · rw [split_word _ hc] at h ⊢
    rw [split_word _ hc, takeWhile_append_of_head h, dropWhile_append_of_head h]
  · rw [split_digit _ hc] at h ⊢
    rw [split_digit _ hc, splitNumber_append_of_head h]
  · have hclose : Quoted.close? (cs ++ tail) = some (body, rest ++ tail) := by
      rw [Quoted.append_of_close? hc, List.append_assoc, List.cons_append]
      exact (stringBody_of_close? hc).close?_append _
    rw [split_quoted hc, split_quoted hclose]
  · rw [split_unterminated hc] at h
    cases tail with
    | nil => rw [List.append_nil, split_unterminated hc]; rfl
    | cons c tail => exact absurd (h c rfl) id
  · rw [split_symbol _ hc] at h ⊢
    rw [split_symbol _ hc, Symbol.extend_append_of_head fun d hd => (h d hd).1]
  · rw [split_stray _ hs, split_stray _ hs]

/-- The lexeme is a token, and all that its own text is split into. -/
def Whole (lexeme : Lexeme) : Prop :=
  (∃ kind, lexeme.kind? = some kind) ∧
    ∃ c cs, lexeme.text = c :: cs ∧ split c cs = (lexeme, [])

theorem split_of_whole {lexeme : Lexeme} {rest : List Char} (hw : lexeme.Whole)
    (h : lexeme.StandsBefore rest) :
    ∃ c cs, lexeme.text ++ rest = c :: cs ∧ split c cs = (lexeme, rest) := by
  obtain ⟨-, c, cs, htext, hsplit⟩ := hw
  have happend : split c (cs ++ rest) = (lexeme, rest) := by
    rw [split_append (by rw [hsplit]; exact h), hsplit, List.nil_append]
  exact ⟨c, cs ++ rest, by rw [htext, List.cons_append], happend⟩

/-- The first character decides which class a lexeme is of, and within a class the text decides
the lexeme. -/
theorem split_eq_of_text_eq {c : Char} {cs cs' : List Char} {kind kind' : Kind}
    (hk : (split c cs).1.kind? = some kind) (hk' : (split c cs').1.kind? = some kind')
    (ht : (split c cs).1.text = (split c cs').1.text) : (split c cs).1 = (split c cs').1 := by
  rcases split_cases c cs with hc | hc | ⟨rfl, body, rest, hc⟩ | ⟨rfl, hc⟩ | ⟨s, hc⟩ | hs
  · rw [split_word _ hc, split_word _ hc] at ht ⊢
    exact congrArg word ht
  · rw [split_digit _ hc, split_digit _ hc] at ht ⊢
    exact congrArg number ht
  · cases hc' : Quoted.close? cs' with
    | none =>
      rw [split_unterminated hc'] at hk'
      cases hk'
    | some p =>
      rw [split_quoted hc, split_quoted hc'] at ht ⊢
      exact congrArg quoted (List.append_cancel_right (List.cons.inj ht).2)
  · rw [split_unterminated hc] at hk
    cases hk
  · rw [split_symbol _ hc, split_symbol _ hc] at ht ⊢
    exact congrArg symbol (Symbol.extend_eq_of_text_eq ht)
  · rw [split_stray _ hs] at hk
    cases hk

/-- A lexeme of the language is all that is split off from its text. -/
theorem split_of_isLexeme {c : Char} {cs : List Char} {kind : Kind} (h : IsLexeme (c :: cs) kind) :
    (∃ kind', (split c cs).1.kind? = some kind') ∧ (split c cs).2 = [] := by
  obtain ⟨hkind, hlen⟩ := length_le_split h (List.prefix_refl (c :: cs))
  have happend := congrArg List.length (text_append_split c cs)
  rw [List.length_append] at happend
  exact ⟨hkind, List.length_eq_zero_iff.1 (by omega)⟩

theorem whole_split {c : Char} {cs : List Char} {kind : Kind}
    (h : (split c cs).1.kind? = some kind) : (split c cs).1.Whole := by
  refine ⟨⟨kind, h⟩, ?_⟩
  have hlex := isLexeme_split h
  have happend := text_append_split c cs
  obtain ⟨d, ds, htext⟩ := List.exists_cons_of_ne_nil (split_text_ne_nil c cs)
  obtain rfl : d = c := by
    rw [htext] at happend
    exact (List.cons.inj happend).1
  -- The text is a lexeme, and so is what is split off from it again.
  rw [htext] at hlex
  obtain ⟨⟨kind', h'⟩, hnil⟩ := split_of_isLexeme hlex
  have hagain := text_append_split d ds
  rw [hnil, List.append_nil] at hagain
  have heq : (split d ds).1 = (split d cs).1 := split_eq_of_text_eq h' h (by rw [hagain, htext])
  exact ⟨d, ds, htext, by rw [← heq, ← hnil]⟩

end Lexeme
end LoxFrontEnd
