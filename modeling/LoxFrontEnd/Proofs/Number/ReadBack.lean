import LoxFrontEnd.Number.Shortest
import LoxFrontEnd.Proofs.Number.Numeral
import Mathlib.Algebra.Group.Nat.Defs

/-! # The text of a double reads back

A decimal is its digits with a point among them, before them or behind them (`Decimal.pointed`).
Zeros in front of the digits or behind them make no difference, so the written-out form of a
decimal and the one with an exponent both read back to its double, as long as the exponent is in
reach of a double (`Decimal.point_bounds`). Hence the text of a double reads back to it
(`Double.ofText?_text`) and determines it (`Double.text_injective`). -/

namespace LoxFrontEnd
set_option autoImplicit false

/-! ## The reach of doubles -/

namespace Double

theorem le_divNearestEven (num den : Nat) : num / den ≤ divNearestEven num den := by
  unfold divNearestEven
  split
  · exact Nat.le_refl _
  · exact Nat.le_succ _

theorem quantaPerUnit_eq : ∃ bits, bits = quantumBits ∧ quantaPerUnit = 2 ^ bits := by
  unfold quantaPerUnit
  generalize quantumBits = bits
  exact ⟨bits, rfl, Nat.pow_eq⟩

/-- A quotient from `2 ^ 1024` on is past the last finite rank. -/
theorem finiteCount_le_nearestRank {num den k : Nat} (hd : 0 < den) (hk : 1024 ≤ k)
    (h : den * 2 ^ k ≤ num) : finiteCount ≤ nearestRank num den := by
  obtain ⟨bits, hbits, hquanta⟩ := quantaPerUnit_eq
  have hscaled : 2 ^ (k + bits) ≤ num * quantaPerUnit / den := by
    rw [Nat.le_div_iff_mul_le hd, hquanta]
    calc 2 ^ (k + bits) * den = den * 2 ^ k * 2 ^ bits := by
          rw [Nat.pow_add, Nat.mul_comm, Nat.mul_assoc]
      _ ≤ num * 2 ^ bits := Nat.mul_le_mul_right _ h
  have hpos : num * quantaPerUnit / den ≠ 0 :=
    Nat.ne_of_gt (Nat.lt_of_lt_of_le (Nat.two_pow_pos _) hscaled)
  have hlog : k + bits ≤ (num * quantaPerUnit / den).log2 := (Nat.le_log2 hpos).2 hscaled
  have hself : 2 ^ (num * quantaPerUnit / den).log2 ≤ num * quantaPerUnit / den :=
    Nat.log2_self_le hpos
  rw [nearestRank]
  generalize num * quantaPerUnit = scaled at *
  generalize hdropped : (scaled / den).log2 - 52 = dropped
  rw [quantumBits] at hbits
  have hkept : 2 ^ 52 ≤ scaled / (den * 2 ^ dropped) := by
    rw [← Nat.div_div_eq_div_mul, Nat.le_div_iff_mul_le (Nat.two_pow_pos _), ← Nat.pow_add]
    rwa [← hdropped, Nat.add_sub_cancel' (by omega)]
  have hnearest := le_divNearestEven scaled (den * 2 ^ dropped)
  have hblocks : 2046 * 2 ^ 52 ≤ dropped * 2 ^ 52 := Nat.mul_le_mul_right _ (by omega)
  simp only [finiteCount, Nat.pow_eq]
  omega

/-- A quotient below half a quantum is nearest to zero. -/
theorem nearestRank_eq_zero {num den k : Nat} (hk : 1075 ≤ k) (h : num * 2 ^ k < den) :
    nearestRank num den = 0 := by
  obtain ⟨bits, hbits, hquanta⟩ := quantaPerUnit_eq
  rw [quantumBits] at hbits
  have htwice : 2 * (num * quantaPerUnit) < den := by
    rw [Nat.mul_left_comm, hquanta, ← Nat.pow_succ']
    exact Nat.lt_of_le_of_lt
      (Nat.mul_le_mul_left _ (Nat.pow_le_pow_right (by decide) (by omega))) h
  have hlt : num * quantaPerUnit < den := by omega
  have hzero : num * quantaPerUnit / den = 0 := Nat.div_eq_of_lt hlt
  have hrest : num * quantaPerUnit % den = num * quantaPerUnit := Nat.mod_eq_of_lt hlt
  simp only [nearestRank, hzero, Nat.log2_zero, Nat.zero_sub, Nat.zero_mul, Nat.zero_add,
    Nat.pow_eq, Nat.pow_zero, Nat.mul_one, divNearestEven, hrest, htwice, true_or, if_true]

theorem nearestRank_zero {den : Nat} (hd : 0 < den) : nearestRank 0 den = 0 := by
  obtain ⟨k, hk⟩ : ∃ k, 1075 ≤ k := ⟨_, Nat.le_refl _⟩
  exact nearestRank_eq_zero hk (by rwa [Nat.zero_mul])

end Double

namespace Decimal

theorem two_pow_le_ten_pow (n : Nat) : 2 ^ (3 * n) ≤ 10 ^ n := by
  rw [Nat.pow_mul]
  exact Nat.pow_le_pow_left (by decide) n

theorem lt_ten_pow_length (n : Nat) : n < 10 ^ (Nat.toDigits 10 n).length :=
  (Nat.length_toDigits_le_iff (by decide) Nat.length_toDigits_pos).1 (Nat.le_refl _)

theorem ten_pow_length_le {n : Nat} (hn : n ≠ 0) : 10 ^ ((Nat.toDigits 10 n).length - 1) ≤ n := by
  have hpos : 0 < (Nat.toDigits 10 n).length := Nat.length_toDigits_pos
  rcases Nat.eq_zero_or_pos ((Nat.toDigits 10 n).length - 1) with hone | hmore
  · rw [hone, Nat.pow_zero]
    exact Nat.pos_of_ne_zero hn
  · refine Nat.not_lt.1 fun hlt => ?_
    have hle := (Nat.length_toDigits_le_iff (by decide) hmore).2 hlt
    omega

/-- Where the point stands, counted from the first digit. -/
def point (d : Decimal) : Int := d.exponent + (Nat.toDigits 10 d.digits).length

section
variable {d : Decimal} {rank : Fin finiteCount} (h : d.toDouble false = .finite false rank)
  (hrank : rank.val ≠ 0)
include h hrank

theorem digits_ne_zero : d.digits ≠ 0 := by
  intro hzero
  have hnearest := Double.eq_of_ofRank h
  rw [numerator, hzero, Nat.zero_mul, Double.nearestRank_zero d.denominator_pos] at hnearest
  exact hrank hnearest.symm

/-- No double but zero is out of reach of 400 decimal places on either side of the point. -/
theorem point_bounds : -400 < d.point ∧ d.point ≤ 400 := by
  have hnearest := Double.eq_of_ofRank h
  have hlower := ten_pow_length_le (digits_ne_zero h hrank)
  have hupper := lt_ten_pow_length d.digits
  have hpos : 0 < (Nat.toDigits 10 d.digits).length := Nat.length_toDigits_pos
  obtain ⟨reach, hreach⟩ : ∃ reach, reach = 400 := ⟨_, rfl⟩
  have hbits := two_pow_le_ten_pow reach
  unfold point
  generalize (Nat.toDigits 10 d.digits).length = length at *
  constructor
  · refine Int.not_le.1 fun hle => hrank ?_
    rw [← hnearest]
    refine Double.nearestRank_eq_zero (k := 3 * reach) (by omega) ?_
    calc d.numerator * 2 ^ (3 * reach)
        ≤ d.digits * 10 ^ d.exponent.toNat * 10 ^ reach := Nat.mul_le_mul_left _ hbits
      _ < 10 ^ length * 10 ^ d.exponent.toNat * 10 ^ reach :=
        Nat.mul_lt_mul_of_pos_right
          (Nat.mul_lt_mul_of_pos_right hupper (Nat.pow_pos (by decide)))
          (Nat.pow_pos (by decide))
      _ = 10 ^ (length + d.exponent.toNat + reach) := by rw [Nat.pow_add, Nat.pow_add]
      _ ≤ d.denominator := Nat.pow_le_pow_right (by decide) (by omega)
  · refine Int.not_lt.1 fun hlt => Nat.not_le.2 rank.isLt ?_
    rw [← hnearest]
    refine Double.finiteCount_le_nearestRank (k := 3 * reach) d.denominator_pos (by omega) ?_
    calc d.denominator * 2 ^ (3 * reach)
        ≤ 10 ^ (-d.exponent).toNat * 10 ^ reach := Nat.mul_le_mul_left _ hbits
      _ = 10 ^ ((-d.exponent).toNat + reach) := (Nat.pow_add ..).symm
      _ ≤ 10 ^ (length - 1 + d.exponent.toNat) := Nat.pow_le_pow_right (by decide) (by omega)
      _ = 10 ^ (length - 1) * 10 ^ d.exponent.toNat := Nat.pow_add ..
      _ ≤ d.numerator := Nat.mul_le_mul_right _ hlower

end
/-! ## Digits and a point -/

/-- What digits stand for when the point is so many places behind the first of them. -/
def pointed (digits : List Char) (point : Int) : Decimal :=
  ⟨Nat.ofDigitChars 10 digits 0, point - digits.length⟩

theorem pointed_toDigits (d : Decimal) : pointed (Nat.toDigits 10 d.digits) d.point = d := by
  rw [pointed, point, Nat.ofDigitChars_ten_toDigits, Int.add_sub_cancel]

theorem pointed_zeros_append (n : Nat) (digits : List Char) (point : Int) :
    pointed (List.replicate n '0' ++ digits) (point + n) = pointed digits point := by
  have hlength : point + n - (List.replicate n '0' ++ digits).length = point - digits.length := by
    rw [List.length_append, List.length_replicate]
    omega
  rw [pointed, hlength, Nat.ofDigitChars_append, Nat.ofDigitChars_replicate_zero, Nat.mul_zero]
  rfl

theorem toDouble_append_zeros (negative : Bool) (digits : List Char) (n : Nat) (point : Int) :
    (pointed (digits ++ List.replicate n '0') point).toDouble negative =
      (pointed digits point).toDouble negative := by
  induction n with
  | zero => rw [List.replicate_zero, List.append_nil]
  | succ n ih =>
    have hlength : point - (digits ++ List.replicate (n + 1) '0').length =
        point - (digits ++ List.replicate n '0').length - 1 := by
      simp only [List.length_append, List.length_replicate]
      omega
    have hdigits : Nat.ofDigitChars 10 (digits ++ List.replicate (n + 1) '0') 0 =
        Nat.ofDigitChars 10 (digits ++ List.replicate n '0') 0 * 10 := by
      rw [List.replicate_succ', ← List.append_assoc, Nat.ofDigitChars_append,
        Nat.ofDigitChars_cons, Nat.mul_comm]
      rfl
    rw [← ih, pointed, hlength, hdigits, toDouble_mul_ten]
    rfl

theorem exists_significant_append (digits : List Char) :
    ∃ n, digits = significant digits ++ List.replicate n '0' := by
  have hzeros : ∀ c ∈ digits.reverse.takeWhile (· = '0'), c = '0' := fun c hc => by
    simpa using List.mem_takeWhile_imp hc
  refine ⟨(digits.reverse.takeWhile (· = '0')).length, ?_⟩
  calc digits
      = (digits.reverse.takeWhile (· = '0') ++ digits.reverse.dropWhile (· = '0')).reverse := by
        rw [List.takeWhile_append_dropWhile, List.reverse_reverse]
    _ = significant digits ++ (digits.reverse.takeWhile (· = '0')).reverse := by
        rw [List.reverse_append, significant]
    _ = significant digits ++
          List.replicate (digits.reverse.takeWhile (· = '0')).length '0' := by
        conv => lhs; rw [List.eq_replicate_of_mem hzeros, List.reverse_replicate]

/-! ## The two written forms -/

end Decimal

theorem Numeral.decimal_eq (numeral : Numeral) :
    numeral.decimal = .pointed (numeral.whole ++ numeral.decimals) numeral.whole.length := by
  rw [decimal, Decimal.pointed, List.length_append]
  congr 1
  omega

theorem Numeral.text_of_decimals {numeral : Numeral} (h : numeral.decimals ≠ []) :
    numeral.text = numeral.whole ++ '.' :: numeral.decimals := by
  rw [text, fraction, if_neg h]

namespace Decimal

theorem isDigit_of_mem_replicate {n : Nat} {c : Char} (h : c ∈ List.replicate n '0') :
    c.isDigit := by
  rw [List.eq_of_mem_replicate h]
  rfl

section
variable {digits : List Char} (hne : digits ≠ []) (hd : ∀ d ∈ digits, d.isDigit)
include hne hd

/-- The point stands before the digits. -/
theorem exists_numeral_before (zeros : Nat) : ∃ numeral : Numeral,
    numeral.text = '0' :: '.' :: (List.replicate zeros '0' ++ digits) ∧
      ∀ negative, numeral.decimal.toDouble negative =
        (pointed digits (-zeros)).toDouble negative := by
  have hdecimals : ∀ c ∈ List.replicate zeros '0' ++ digits, c.isDigit :=
    List.forall_mem_append.2 ⟨fun c hc => isDigit_of_mem_replicate hc, hd⟩
  let numeral : Numeral :=
    ⟨['0'], List.replicate zeros '0' ++ digits, ⟨by simp, by simp⟩, hdecimals⟩
  have hpoint : (1 : Int) = -zeros + (zeros + 1 : Nat) := by omega
  refine ⟨numeral, Numeral.text_of_decimals (by simp [numeral, hne]), fun negative => ?_⟩
  rw [numeral.decimal_eq]
  change (pointed (List.replicate (zeros + 1) '0' ++ digits) 1).toDouble negative = _
  rw [hpoint, pointed_zeros_append]

omit hne in
/-- The point stands between the digits. -/
theorem exists_numeral_inside {point : Nat} (hpos : 0 < point) (hlt : point < digits.length) :
    ∃ numeral : Numeral, numeral.text = digits.take point ++ '.' :: digits.drop point ∧
      ∀ negative, numeral.decimal.toDouble negative =
        (pointed digits point).toDouble negative := by
  have hlength : (digits.take point).length = point := List.length_take_of_le (Nat.le_of_lt hlt)
  have hwhole : digits.take point ≠ [] := List.length_pos_iff.1 (by omega)
  have hdecimals : digits.drop point ≠ [] := List.length_pos_iff.1 (by rw [List.length_drop]; omega)
  let numeral : Numeral := ⟨digits.take point, digits.drop point,
    ⟨hwhole, fun c hc => hd c (List.mem_of_mem_take hc)⟩,
    fun c hc => hd c (List.mem_of_mem_drop hc)⟩
  refine ⟨numeral, Numeral.text_of_decimals hdecimals, fun negative => ?_⟩
  rw [numeral.decimal_eq]
  change (pointed (digits.take point ++ digits.drop point)
    (digits.take point).length).toDouble negative = _
  rw [List.take_append_drop, hlength]

/-- The point stands behind the digits. -/
theorem exists_numeral_behind (zeros : Nat) : ∃ numeral : Numeral,
    numeral.text = digits ++ List.replicate zeros '0' ++ ['.', '0'] ∧
      ∀ negative, numeral.decimal.toDouble negative =
        (pointed digits (digits.length + zeros : Nat)).toDouble negative := by
  have hwhole : ∀ c ∈ digits ++ List.replicate zeros '0', c.isDigit :=
    List.forall_mem_append.2 ⟨hd, fun c hc => isDigit_of_mem_replicate hc⟩
  let numeral : Numeral :=
    ⟨digits ++ List.replicate zeros '0', ['0'], ⟨by simp [hne], hwhole⟩, by simp⟩
  have hlength : numeral.whole.length = digits.length + zeros := by simp [numeral]
  refine ⟨numeral, Numeral.text_of_decimals (by simp [numeral]), fun negative => ?_⟩
  rw [numeral.decimal_eq, hlength]
  change (pointed (digits ++ List.replicate zeros '0' ++ ['0']) _).toDouble negative = _
  rw [List.append_assoc, ← List.replicate_succ', toDouble_append_zeros]

/-- Written out, digits are a numeral of the same double. -/
theorem exists_numeral_positional (point : Int) : ∃ numeral : Numeral,
    numeral.text = positional digits point ∧
      ∀ negative, numeral.decimal.toDouble negative =
        (pointed digits point).toDouble negative := by
  match point with
  | .negSucc zeros => exact exists_numeral_before hne hd (zeros + 1)
  | .ofNat point =>
    rcases Nat.eq_zero_or_pos point with rfl | hpos
    · have htext : positional digits (.ofNat 0) = '0' :: '.' :: digits := by
        simp [positional, hne]
      rw [htext]
      exact exists_numeral_before hne hd 0
    rcases Nat.lt_or_ge point digits.length with hlt | hge
    · have htext : positional digits (.ofNat point) =
          digits.take point ++ '.' :: digits.drop point := by
        have hwhole : digits.take point ≠ [] := by simp [hne, Nat.ne_of_gt hpos]
        have hfraction : digits.drop point ≠ [] := by simp [hlt]
        simp [positional, Nat.sub_eq_zero_of_le (Nat.le_of_lt hlt), hwhole, hfraction]
      rw [htext]
      exact exists_numeral_inside hd hpos hlt
    · obtain ⟨zeros, rfl⟩ := Nat.exists_eq_add_of_le hge
      have htext : positional digits (.ofNat (digits.length + zeros)) =
          digits ++ List.replicate zeros '0' ++ ['.', '0'] := by
        have hwhole : (digits ++ List.replicate zeros '0').take (digits.length + zeros) =
            digits ++ List.replicate zeros '0' := List.take_of_length_le (by simp)
        simp [positional, hwhole, hne]
      rw [htext]
      exact exists_numeral_behind hne hd zeros

end

theorem splitSign_toDigits (n : Nat) :
    splitSign (Nat.toDigits 10 n) = (false, Nat.toDigits 10 n) := by
  have hdigit : ∀ c ∈ Nat.toDigits 10 n, c.isDigit := fun c hc =>
    Nat.isDigit_of_mem_toDigits (by decide) (by decide) hc
  generalize Nat.toDigits 10 n = digits at *
  refine splitSign.eq_3 _ (fun _ h => ?_) (fun _ h => ?_)
  · exact absurd (hdigit '-' (h ▸ List.mem_cons_self)) (by decide)
  · exact absurd (hdigit '+' (h ▸ List.mem_cons_self)) (by decide)

theorem exponentOf?_signed (exponent : Int) :
    exponentOf? ('e' :: signed exponent) = some exponent := by
  have hall (n : Nat) : (Nat.toDigits 10 n).all Char.isDigit = true :=
    List.all_eq_true.2 fun c hc => Nat.isDigit_of_mem_toDigits (by decide) (by decide) hc
  match exponent with
  | .ofNat n =>
    simp [exponentOf?, signed, splitSign_toDigits, hall, Nat.toDigits_ne_nil,
      Nat.ofDigitChars_ten_toDigits]
  | .negSucc n =>
    simp [exponentOf?, signed, splitSign, hall, Nat.toDigits_ne_nil,
      Nat.ofDigitChars_ten_toDigits, Int.negSucc_eq]

/-- With an exponent, digits are read as they stand, as long as the exponent is in reach. -/
theorem ofText?_scientific {digits : List Char} (hne : digits ≠ []) (hd : ∀ d ∈ digits, d.isDigit)
    {exponent : Int} (hlow : -400 ≤ exponent) (hhigh : exponent ≤ 400) (negative : Bool) :
    Double.ofText? (Double.sign negative ++ scientific digits exponent) =
      some ((pointed digits (exponent + 1)).toDouble negative) := by
  obtain ⟨first, rest, rfl⟩ := List.exists_cons_of_ne_nil hne
  obtain ⟨hfirst, hrest⟩ := List.forall_mem_cons.1 hd
  let numeral : Numeral := ⟨[first], rest, ⟨by simp, by simpa using hfirst⟩, hrest⟩
  have htext : scientific (first :: rest) exponent = numeral.text ++ 'e' :: signed exponent := by
    cases rest <;> simp [scientific, numeral, Numeral.text, Numeral.fraction]
  have hclamp : clampExponent (first :: rest).length exponent = exponent := by
    unfold clampExponent
    omega
  have hread : ofText? (numeral.text ++ 'e' :: signed exponent) =
      some (pointed (first :: rest) (exponent + 1)) := by
    have hends : ∀ c ∈ ('e' :: signed exponent).head?, ¬ c.isDigit ∧ c ≠ '.' := by
      simp
    rw [numeral.ofText?_append hends, exponentOf?_signed, Option.map_some]
    change some (Decimal.mk (Nat.ofDigitChars 10 (first :: rest) 0)
      (clampExponent (first :: rest).length exponent - rest.length)) = _
    rw [hclamp, pointed, List.length_cons]
    congr 2
    omega
  obtain ⟨d, cs, hcons, hdigit⟩ := numeral.exists_text_eq_cons
  rw [htext, hcons, List.cons_append, Double.ofText?_sign_append _ hdigit, ← List.cons_append,
    ← hcons, hread, Option.map_some]

/-- The text of a decimal that is in reach of a double reads back to that double. -/
theorem ofText?_sign_text {d : Decimal} {rank : Fin finiteCount}
    (h : d.toDouble false = .finite false rank) (hrank : rank.val ≠ 0) (negative : Bool) :
    Double.ofText? (Double.sign negative ++ d.text) = some (d.toDouble negative) := by
  have hdigits := digits_ne_zero h hrank
  obtain ⟨hlow, hhigh⟩ := point_bounds h hrank
  obtain ⟨zeros, hsplit⟩ := exists_significant_append (Nat.toDigits 10 d.digits)
  have hd : ∀ c ∈ significant (Nat.toDigits 10 d.digits), c.isDigit := fun c hc =>
    Nat.isDigit_of_mem_toDigits (by decide) (by decide)
      (hsplit ▸ List.mem_append_left _ hc : c ∈ Nat.toDigits 10 d.digits)
  have hne : significant (Nat.toDigits 10 d.digits) ≠ [] := by
    intro hnil
    rw [hnil, List.nil_append] at hsplit
    have hzero := Nat.ofDigitChars_ten_toDigits (n := d.digits)
    rw [hsplit, Nat.ofDigitChars_replicate_zero, Nat.mul_zero] at hzero
    exact hdigits hzero.symm
  have hvalue : (pointed (significant (Nat.toDigits 10 d.digits)) d.point).toDouble negative =
      d.toDouble negative := by
    rw [← toDouble_append_zeros negative _ zeros, ← hsplit, pointed_toDigits]
  rw [text, if_neg hdigits]
  change Double.ofText? (_ ++
    if -3 ≤ d.point ∧ d.point ≤ 16 then _ else scientific _ (d.point - 1)) = _
  split
  · obtain ⟨numeral, htext, hdouble⟩ := exists_numeral_positional hne hd d.point
    rw [← hvalue, ← hdouble, ← numeral.ofText?_sign_text, htext]
    rfl
  · rw [ofText?_scientific hne hd (by omega) (by omega), Int.sub_add_cancel, hvalue]

end Decimal

/-! ## Doubles -/

namespace Double

theorem ofText?_text (value : Double) : ofText? value.text = some value := by
  match value with
  | nan => decide +kernel
  | infinite negative => cases negative <;> decide +kernel
  | finite negative rank =>
    change ofText? (sign negative ++ if rank.val = 0 then _ else _) = _
    split
    · next hzero =>
      let numeral : Numeral := ⟨['0'], ['0'], ⟨by simp, by simp⟩, by simp⟩
      have hrank : ofRank negative (nearestRank 0 10) = finite negative rank := by
        rw [nearestRank_zero (by decide), ← hzero, ofRank_val]
      rw [← hrank]
      exact numeral.ofText?_sign_text negative
    · next hrank =>
      rw [Decimal.ofText?_sign_text (toDouble_shortest false rank) hrank, toDouble_shortest]

theorem text_injective : Function.Injective text := by
  intro first second h
  rw [← Option.some.injEq, ← ofText?_text first, ← ofText?_text second, h]

end Double
end LoxFrontEnd
