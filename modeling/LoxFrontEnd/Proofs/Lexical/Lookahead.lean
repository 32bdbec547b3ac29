import LoxFrontEnd.Proofs.Lexical.Seam

/-! # Looking ahead

Where a lexeme ends is found by looking at what follows it. Of characters that start nothing, this
tells none from a blank: a text where some of them have become blanks (`Faded`) has the same lexeme
in front (`Lexeme.split_faded`). -/

namespace LoxFrontEnd
set_option autoImplicit false

/-! ## Faded texts -/

/-- A text in which some of the characters that start nothing have become blanks. -/
inductive Faded : List Char → List Char → Prop
  | nil : Faded [] []
  | keep (c : Char) {text faded : List Char} : Faded text faded → Faded (c :: text) (c :: faded)
  | fade {c : Char} {text faded : List Char} :
      StartsNothing c → Faded text faded → Faded (c :: text) (' ' :: faded)

namespace Faded
variable {text faded : List Char}

theorem refl (text : List Char) : Faded text text := by
  induction text with
  | nil => exact .nil
  | cons c text ih => exact .keep c ih

theorem append (h : Faded text faded) (front : List Char) :
    Faded (front ++ text) (front ++ faded) := by
  induction front with
  | nil => exact h
  | cons c front ih => exact .keep c ih

/-- What a faded text starts with, up to the first blank, the text starts with. -/
theorem isPrefix {front : List Char} (h : Faded text faded) (hf : ' ' ∉ front)
    (hp : front <+: faded) : front <+: text := by
  induction h generalizing front with
  | nil => exact hp
  | @keep c text faded _ ih =>
    cases front with
    | nil => exact List.nil_prefix
    | cons d front =>
      obtain ⟨rfl, hrest⟩ := List.cons_prefix_cons.1 hp
      have hfront : ' ' ∉ front := fun hm => hf (List.mem_cons_of_mem _ hm)
      exact List.cons_prefix_cons.2 ⟨rfl, ih hfront hrest⟩
  | fade _ _ _ =>
    cases front with
    | nil => exact List.nil_prefix
    | cons d front =>
      obtain ⟨rfl, -⟩ := List.cons_prefix_cons.1 hp
      exact absurd List.mem_cons_self hf

theorem head {p : Char → Bool} (h : Faded text faded) (hblank : ¬ p ' ')
    (ht : ∀ c ∈ text.head?, ¬ p c) : ∀ c ∈ faded.head?, ¬ p c := by
  cases h with
  | nil => exact ht
  | keep c _ => exact ht
  | fade _ _ =>
    intro c hc
    obtain rfl : ' ' = c := by simpa using hc
    exact hblank

/-- A run of characters in front of a faded text is the same run, and ends in the same place. -/
theorem span {p : Char → Bool} (hblank : ¬ p ' ') {cs : List Char}
    (h : Faded (cs.dropWhile p) faded) :
    (cs.takeWhile p ++ faded).takeWhile p = cs.takeWhile p ∧
      (cs.takeWhile p ++ faded).dropWhile p = faded := by
  have hrest : ∀ c ∈ (cs.dropWhile p).head?, ¬ p c := by
    intro c hc
    have hnot := List.head?_dropWhile_not p cs
    rw [Option.mem_def.1 hc] at hnot
    simpa using hnot
  have hhead := h.head hblank hrest
  have hall : ∀ c ∈ cs.takeWhile p, p c := List.all_eq_true.1 List.all_takeWhile
  have htake : faded.takeWhile p = [] := takeWhile_append_of_head hhead []
  have hdrop : faded.dropWhile p = faded := dropWhile_append_of_head hhead []
  rw [List.takeWhile_append_of_pos hall, List.dropWhile_append_of_pos hall, htake, hdrop,
    List.append_nil]
  exact ⟨rfl, rfl⟩

end Faded

/-! ## Looking ahead -/

/-- Digits, a point and a digit make a number, together with the digits that follow. -/
theorem splitNumber_of_point {cs tail : List Char} {d : Char}
    (hdrop : cs.dropWhile Char.isDigit = '.' :: d :: tail) (hd : d.isDigit) :
    splitNumber cs = (cs.takeWhile Char.isDigit ++ '.' :: d :: tail.takeWhile Char.isDigit,
      tail.dropWhile Char.isDigit) := by
  rw [splitNumber, hdrop]
  exact if_pos hd

theorem splitNumber_of_not_point {cs : List Char}
    (h : ∀ d, d.isDigit → ¬ ['.', d] <+: cs.dropWhile Char.isDigit) :
    splitNumber cs = (cs.takeWhile Char.isDigit, cs.dropWhile Char.isDigit) := by
  unfold splitNumber
  split
  · next d tail hdrop =>
    rw [hdrop] at h
    rw [if_neg fun hd => h d hd ⟨tail, rfl⟩, hdrop]
  · rfl

theorem splitNumber_faded {cs faded : List Char} (h : Faded (splitNumber cs).2 faded) :
    splitNumber ((splitNumber cs).1 ++ faded) = ((splitNumber cs).1, faded) := by
  have hblank : ¬ Char.isDigit ' ' := by decide
  by_cases hpoint : ∃ d, d.isDigit ∧ ['.', d] <+: cs.dropWhile Char.isDigit
  · obtain ⟨d, hd, tail, htail⟩ := hpoint
    have hpoint : cs.dropWhile Char.isDigit = '.' :: d :: tail := htail.symm
    rw [splitNumber_of_point hpoint hd] at h ⊢
    obtain ⟨htake, hdrop⟩ := h.span hblank
    have hall : ∀ c ∈ cs.takeWhile Char.isDigit, c.isDigit :=
      List.all_eq_true.1 List.all_takeWhile
    have hwhole : cs.takeWhile Char.isDigit ++ '.' :: d :: tail.takeWhile Char.isDigit ++ faded =
        cs.takeWhile Char.isDigit ++ '.' :: d :: (tail.takeWhile Char.isDigit ++ faded) := by
      simp
    rw [hwhole, splitNumber_of_point (List.dropWhile_append_of_pos hall) hd,
      List.takeWhile_append_of_pos hall, htake, hdrop]
    simp
  · have hnot : ∀ d, d.isDigit → ¬ ['.', d] <+: cs.dropWhile Char.isDigit :=
      fun d hd hp => hpoint ⟨d, hd, hp⟩
    rw [splitNumber_of_not_point hnot] at h ⊢
    obtain ⟨htake, hdrop⟩ := h.span hblank
    rw [splitNumber_of_not_point, htake, hdrop]
    intro d hd hp
    rw [hdrop] at hp
    have hd' : d ≠ ' ' := by
      rintro rfl
      exact hblank hd
    exact hnot d hd (h.isPrefix (by simpa using hd'.symm) hp)

theorem Symbol.extend_of_not_equal {symbol : Symbol} {cs : List Char}
    (h : symbol.withEqual? ≠ none → ¬ ['='] <+: cs) : symbol.extend cs = (symbol, cs) := by
  unfold extend
  split
  · next cs =>
    split
    · next longer hw => exact absurd ⟨cs, rfl⟩ (h (by simp [hw]))
    · rfl
  · rfl

theorem Symbol.extend_equal {symbol longer : Symbol} (cs : List Char)
    (h : symbol.withEqual? = some longer) : symbol.extend ('=' :: cs) = (longer, cs) := by
  rw [extend, h]

theorem Symbol.extend_faded {symbol : Symbol} {cs faded : List Char}
    (h : Faded (symbol.extend cs).2 faded) :
    ∃ cs', (symbol.extend cs).1.text.toList ++ faded = symbol.text.toList ++ cs' ∧
      symbol.extend cs' = ((symbol.extend cs).1, faded) := by
  by_cases hequal : symbol.withEqual? ≠ none → ¬ ['='] <+: cs
  · rw [extend_of_not_equal hequal] at h ⊢
    refine ⟨faded, rfl, extend_of_not_equal fun hw hp => hequal hw (h.isPrefix (by decide) hp)⟩
  · rw [Classical.not_imp, Classical.not_not] at hequal
    obtain ⟨hw, rest, rfl⟩ := hequal
    obtain ⟨longer, hw⟩ := Option.ne_none_iff_exists'.1 hw
    rw [List.singleton_append, extend_equal rest hw] at h ⊢
    exact ⟨'=' :: faded, by simp [text_of_withEqual? hw], extend_equal faded hw⟩

namespace Lexeme

theorem split_faded {c : Char} {cs faded : List Char} (h : Faded (split c cs).2 faded) :
    ∃ cs', (split c cs).1.text ++ faded = c :: cs' ∧
      split c cs' = ((split c cs).1, faded) := by
  rcases split_cases c cs with hc | hc | ⟨rfl, body, rest, hc⟩ | ⟨rfl, hc⟩ | ⟨s, hc⟩ | hs
  · rw [split_word cs hc] at h ⊢
    obtain ⟨htake, hdrop⟩ := h.span (by decide)
    exact ⟨cs.takeWhile isWordPart ++ faded, rfl, by rw [split_word _ hc, htake, hdrop]⟩
  · rw [split_digit cs hc] at h ⊢
    exact ⟨(splitNumber cs).1 ++ faded, rfl, by rw [split_digit _ hc, splitNumber_faded h]⟩
  · rw [split_quoted hc] at h ⊢
    refine ⟨body ++ '"' :: faded, by simp [text], ?_⟩
    exact split_quoted ((stringBody_of_close? hc).close?_append faded)
  · rw [split_unterminated hc] at h ⊢
    cases h
    exact ⟨cs, by simp [text], split_unterminated hc⟩
  · rw [split_symbol cs hc] at h ⊢
    obtain ⟨cs', htext, hextend⟩ := Symbol.extend_faded h
    rw [Symbol.text_of_single? hc] at htext
    exact ⟨cs', htext, by rw [split_symbol cs' hc, hextend]⟩
  · rw [split_stray cs hs] at h ⊢
    exact ⟨faded, rfl, split_stray faded hs⟩

end Lexeme

end LoxFrontEnd
