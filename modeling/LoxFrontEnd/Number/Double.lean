/-! Double-precision numbers as exact data. A finite number is a sign and a rank: rank `r` is the
`r`-th magnitude from zero upwards. `nearestRank` rounds a quotient to the nearest rank, a half to
the even one; it depends on the quotient alone (`nearestRank_mul_right`) and leaves every
representable magnitude alone (`nearestRank_quanta`). -/

namespace LoxFrontEnd
set_option autoImplicit false

/-- The number of finite magnitudes: 2047 blocks of `2 ^ 52`. -/
def finiteCount : Nat := 2047 * Nat.pow 2 52

/-- A double-precision number; all NaNs are one value. -/
inductive Double
  | nan
  | infinite (negative : Bool)
  | finite (negative : Bool) (rank : Fin finiteCount)
  deriving DecidableEq

namespace Double

/-- The smallest positive magnitude, a quantum, is `2 ^ -quantumBits`. -/
def quantumBits : Nat := 1074

def quantaPerUnit : Nat := Nat.pow 2 quantumBits

theorem quantaPerUnit_pos : 0 < quantaPerUnit := by
  unfold quantaPerUnit
  generalize quantumBits = bits
  exact Nat.two_pow_pos bits

def quanta (rank : Nat) : Nat :=
  if rank < Nat.pow 2 52 then rank
  else (Nat.pow 2 52 + rank % Nat.pow 2 52) * Nat.pow 2 (rank / Nat.pow 2 52 - 1)

/-- The integer nearest to `num / den`; a half goes to the even neighbour. -/
def divNearestEven (num den : Nat) : Nat :=
  if 2 * (num % den) < den ∨ (2 * (num % den) = den ∧ num / den % 2 = 0) then num / den
  else num / den + 1

/-- The rank nearest to `num / den` when ranks go on beyond the finite ones. The significand keeps
53 bits of the quotient, and each dropped bit moves one block up. -/
def nearestRank (num den : Nat) : Nat :=
  let scaled := num * quantaPerUnit
  let dropped := (scaled / den).log2 - 52
  dropped * Nat.pow 2 52 + divNearestEven scaled (den * Nat.pow 2 dropped)

/-- The number of a rank; ranks past the last finite one are infinite. -/
def ofRank (negative : Bool) (rank : Nat) : Double :=
  if h : rank < finiteCount then .finite negative ⟨rank, h⟩ else .infinite negative

def ofQuotient (negative : Bool) (num den : Nat) : Double := ofRank negative (nearestRank num den)

/-! ## Rounding -/

theorem divNearestEven_mul_right (num den k : Nat) (hk : 0 < k) :
    divNearestEven (num * k) (den * k) = divNearestEven num den := by
  have hq : num * k / (den * k) = num / den := Nat.mul_div_mul_right num den hk
  have hr : num * k % (den * k) = num % den * k := Nat.mul_mod_mul_right k num den
  have hlt : 2 * (num % den * k) < den * k ↔ 2 * (num % den) < den := by
    rw [← Nat.mul_assoc]; exact Nat.mul_lt_mul_right hk
  have heq : 2 * (num % den * k) = den * k ↔ 2 * (num % den) = den := by
    rw [← Nat.mul_assoc]; exact Nat.mul_left_inj (Nat.ne_of_gt hk)
  simp only [divNearestEven, hq, hr, hlt, heq]

theorem divNearestEven_of_dvd (m den : Nat) (hd : 0 < den) : divNearestEven (m * den) den = m := by
  simp [divNearestEven, hd]

theorem nearestRank_mul_right (num den k : Nat) (hk : 0 < k) :
    nearestRank (num * k) (den * k) = nearestRank num den := by
  have hs : num * k * quantaPerUnit = num * quantaPerUnit * k := Nat.mul_right_comm ..
  have hq : num * quantaPerUnit * k / (den * k) = num * quantaPerUnit / den :=
    Nat.mul_div_mul_right _ _ hk
  simp only [nearestRank, hs, hq]
  rw [Nat.mul_right_comm den k, divNearestEven_mul_right _ _ _ hk]

theorem nearestRank_quanta (rank : Nat) : nearestRank (quanta rank) quantaPerUnit = rank := by
  have hpos := quantaPerUnit_pos
  simp only [nearestRank, Nat.mul_div_cancel _ hpos, Nat.pow_eq]
  by_cases h : rank < 2 ^ 52
  · have hlog : rank.log2 - 52 = 0 := by
      rcases Nat.eq_zero_or_pos rank with rfl | h0
      · simp
      · have := (Nat.log2_lt (Nat.ne_of_gt h0)).2 h; omega
    simp only [quanta, Nat.pow_eq, if_pos h, hlog, Nat.zero_mul, Nat.zero_add, Nat.pow_zero, Nat.mul_one]
    exact divNearestEven_of_dvd rank _ hpos
  · have hm : rank % 2 ^ 52 < 2 ^ 52 := Nat.mod_lt _ (Nat.two_pow_pos 52)
    have hb : 1 ≤ rank / 2 ^ 52 := by omega
    have hpow := Nat.two_pow_pos (rank / 2 ^ 52 - 1)
    have hlog : ((2 ^ 52 + rank % 2 ^ 52) * 2 ^ (rank / 2 ^ 52 - 1)).log2
        = 52 + (rank / 2 ^ 52 - 1) := by
      refine (Nat.log2_eq_iff (Nat.ne_of_gt (Nat.mul_pos (by omega) hpow))).2 ⟨?_, ?_⟩
      · rw [Nat.pow_add]; exact Nat.mul_le_mul_right _ (by omega)
      · rw [Nat.add_right_comm, Nat.pow_add 2 (52 + 1)]
        exact Nat.mul_lt_mul_of_pos_right (by omega) hpow
    simp only [quanta, Nat.pow_eq, if_neg h, hlog, Nat.add_sub_cancel_left]
    rw [Nat.mul_assoc, Nat.mul_comm _ quantaPerUnit, divNearestEven_of_dvd _ _ (Nat.mul_pos hpos hpow)]
    omega

theorem ofRank_val (negative : Bool) (rank : Fin finiteCount) :
    ofRank negative rank = .finite negative rank := by
  simp [ofRank, rank.isLt]

theorem eq_of_ofRank {negative : Bool} {n : Nat} {rank : Fin finiteCount}
    (h : ofRank negative n = .finite negative rank) : n = rank := by
  unfold ofRank at h
  split at h
  · simp only [finite.injEq, true_and] at h
    exact congrArg Fin.val h
  · simp at h

end Double
end LoxFrontEnd
