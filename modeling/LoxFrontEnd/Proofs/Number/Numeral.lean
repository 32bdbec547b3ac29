import LoxFrontEnd.Number.Decimal
import LoxFrontEnd.Proofs.Lexical.Seam
import Mathlib.Data.List.TakeWhile

/-! # Numbers in writing

Digits with at most one point inside them (`Numeral`) are the number lexemes of the language
(`Numeral.isLexeme_text`, `Numeral.exists_text_of_isLexeme`). They are read as the nearest double,
however many they are (`Numeral.ofText?_text`); an exponent behind them moves the point
(`Numeral.ofText?_append`). -/

namespace LoxFrontEnd
set_option autoImplicit false

/-- A number in writing: digits, or digits on both sides of a point. -/
structure Numeral where
  whole : List Char
  decimals : List Char
  isDigits_whole : IsDigits whole
  isDigit_decimals : ∀ d ∈ decimals, d.isDigit

theorem toLower_of_isDigit {c : Char} (h : c.isDigit) : c.toLower = c := by
  have hc : ¬ (c.val ≥ 'A'.val ∧ c.val ≤ 'Z'.val) := by
    simp only [Char.isDigit, Bool.and_eq_true, decide_eq_true_eq, ge_iff_le,
      UInt32.le_iff_toNat_le] at h ⊢
    change 48 ≤ c.val.toNat ∧ c.val.toNat ≤ 57 at h
    change ¬ (65 ≤ c.val.toNat ∧ c.val.toNat ≤ 90)
    omega
  exact dif_neg hc

/-- A minus sign, or nothing. -/
def Double.sign (negative : Bool) : List Char := if negative then ['-'] else []

/-- What starts with a digit is no word, and its sign is the one in front of it. -/
theorem Double.ofText?_sign_append {d : Char} (cs : List Char) (h : d.isDigit) (negative : Bool) :
    ofText? (sign negative ++ d :: cs) =
      (Decimal.ofText? (d :: cs)).map (Decimal.toDouble negative) := by
  have hletter {c : Char} (hc : ¬ c.isDigit) : d ≠ c := by
    rintro rfl
    exact hc h
  have hsign : Decimal.splitSign (sign negative ++ d :: cs) = (negative, d :: cs) := by
    cases negative with
    | true => rfl
    | false =>
      exact Decimal.splitSign.eq_3 _ (fun _ h => hletter (by decide) (List.cons.inj h).1)
        (fun _ h => hletter (by decide) (List.cons.inj h).1)
  -- The words for infinity and NaN start with letters.
  have hword (c : Char) (word : String) (hw : word.toList.head? = some c) (hc : ¬ c.isDigit) :
      String.ofList ((d :: cs).map Char.toLower) ≠ word := by
    rintro rfl
    rw [String.toList_ofList, List.map_cons, toLower_of_isDigit h] at hw
    exact hletter hc (Option.some.inj hw)
  have hinf := hword 'i' "inf" rfl (by decide)
  have hinfinity := hword 'i' "infinity" rfl (by decide)
  have hnan := hword 'n' "nan" rfl (by decide)
  rw [ofText?, hsign]
  simp only [hinf, hinfinity, hnan, or_self, if_false]

namespace Numeral

/-- The point and the digits behind it, if there are any. -/
def fraction (numeral : Numeral) : List Char :=
  if numeral.decimals = [] then [] else '.' :: numeral.decimals

def text (numeral : Numeral) : List Char := numeral.whole ++ numeral.fraction

def decimal (numeral : Numeral) : Decimal :=
  ⟨Nat.ofDigitChars 10 (numeral.whole ++ numeral.decimals) 0, -numeral.decimals.length⟩

/-- The double that is nearest to the number. -/
def value (numeral : Numeral) : Double := numeral.decimal.toDouble false

theorem isLexeme_text (numeral : Numeral) : IsLexeme numeral.text .number := by
  unfold text fraction
  split
  · rw [List.append_nil]
    exact .whole numeral.isDigits_whole
  · next h => exact .fraction numeral.isDigits_whole ⟨h, numeral.isDigit_decimals⟩

theorem exists_text_of_isLexeme {text : List Char} (h : IsLexeme text .number) :
    ∃ numeral : Numeral, numeral.text = text := by
  cases h with
  | whole hd => exact ⟨⟨text, [], hd, by simp⟩, List.append_nil _⟩
  | @fraction digits decimals hd he =>
    exact ⟨⟨digits, decimals, hd, he.2⟩, congrArg (digits ++ ·) (if_neg he.1)⟩

theorem exists_text_eq_cons (numeral : Numeral) : ∃ d cs, numeral.text = d :: cs ∧ d.isDigit := by
  obtain ⟨hne, hd⟩ := numeral.isDigits_whole
  obtain ⟨d, ds, hwhole⟩ := List.exists_cons_of_ne_nil hne
  refine ⟨d, ds ++ numeral.fraction, ?_, hd d (hwhole ▸ List.mem_cons_self)⟩
  rw [text, hwhole, List.cons_append]

/-! ## Reading a number -/

theorem takeWhile_text (numeral : Numeral) :
    numeral.text.takeWhile Char.isDigit = numeral.whole := by
  have hfraction : numeral.fraction.takeWhile Char.isDigit = [] := by
    unfold fraction
    split <;> rfl
  rw [text, List.takeWhile_append_of_pos numeral.isDigits_whole.2, hfraction, List.append_nil]

theorem dropWhile_text (numeral : Numeral) :
    numeral.text.dropWhile Char.isDigit = numeral.fraction := by
  rw [text, List.dropWhile_append_of_pos numeral.isDigits_whole.2]
  unfold fraction
  split <;> rfl

theorem splitFraction_append (numeral : Numeral) {rest : List Char}
    (h : ∀ c ∈ rest.head?, ¬ c.isDigit ∧ c ≠ '.') :
    Decimal.splitFraction (numeral.fraction ++ rest) = (numeral.decimals, rest) := by
  have hdigit : ∀ c ∈ rest.head?, ¬ c.isDigit := fun c hc => (h c hc).1
  have htake : (numeral.decimals ++ rest).takeWhile Char.isDigit = numeral.decimals := by
    rw [takeWhile_append_of_head hdigit, List.takeWhile_eq_self_iff.2 numeral.isDigit_decimals]
  have hdrop : (numeral.decimals ++ rest).dropWhile Char.isDigit = rest := by
    rw [dropWhile_append_of_head hdigit, List.dropWhile_eq_nil_iff.2 numeral.isDigit_decimals,
      List.nil_append]
  unfold fraction
  split
  · next hnil =>
    rw [hnil, List.nil_append]
    exact Decimal.splitFraction.eq_2 _ fun cs hcs => (h '.' (hcs ▸ rfl)).2 rfl
  · rw [List.cons_append, Decimal.splitFraction, htake, hdrop]

/-- The exponent is what stands behind the number. -/
theorem ofText?_append (numeral : Numeral) {rest : List Char}
    (h : ∀ c ∈ rest.head?, ¬ c.isDigit ∧ c ≠ '.') :
    Decimal.ofText? (numeral.text ++ rest) = (Decimal.exponentOf? rest).map fun exponent =>
      ⟨Nat.ofDigitChars 10 (numeral.whole ++ numeral.decimals) 0,
        Decimal.clampExponent (numeral.whole ++ numeral.decimals).length exponent -
          numeral.decimals.length⟩ := by
  have hdigit : ∀ c ∈ rest.head?, ¬ c.isDigit := fun c hc => (h c hc).1
  have hne : numeral.whole ++ numeral.decimals ≠ [] := by
    simp [numeral.isDigits_whole.1]
  simp only [Decimal.ofText?, takeWhile_append_of_head hdigit, dropWhile_append_of_head hdigit,
    takeWhile_text, dropWhile_text, splitFraction_append numeral h, if_neg hne]

theorem clampExponent_zero (count : Nat) : Decimal.clampExponent count 0 = 0 := by
  unfold Decimal.clampExponent
  omega

theorem ofText?_decimal (numeral : Numeral) :
    Decimal.ofText? numeral.text = some numeral.decimal := by
  have hread : Decimal.ofText? (numeral.text ++ []) = _ := numeral.ofText?_append nofun
  rw [List.append_nil] at hread
  rw [hread, Decimal.exponentOf?, Option.map_some, clampExponent_zero, Int.zero_sub, decimal]

theorem ofText?_sign_text (numeral : Numeral) (negative : Bool) :
    Double.ofText? (Double.sign negative ++ numeral.text) =
      some (numeral.decimal.toDouble negative) := by
  obtain ⟨d, cs, htext, hd⟩ := numeral.exists_text_eq_cons
  rw [htext, Double.ofText?_sign_append cs hd, ← htext, ofText?_decimal, Option.map_some]

theorem ofText?_text (numeral : Numeral) : Double.ofText? numeral.text = some numeral.value :=
  numeral.ofText?_sign_text false

end Numeral
end LoxFrontEnd
