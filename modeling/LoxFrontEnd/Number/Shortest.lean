import LoxFrontEnd.Number.Decimal

/-! The text of a double: the fewest digits that read back to it, of two such texts the nearer one,
and of two equally near the larger. Numbers whose leading digit stands between the tenth of a
thousandth and the quadrillions are written out with at least one digit after the point; all others
have an exponent. -/

namespace LoxFrontEnd
set_option autoImplicit false

namespace Double

/-- Magnitudes are cut on grids no finer than `10 ^ -finest`. -/
def finest : Nat := 400

/-- A magnitude in units of `10 ^ -finest`, over `quantaPerUnit`. -/
def scaledMagnitude (rank : Nat) : Nat := quanta rank * Nat.pow 10 finest

/-- The multiple of `10 ^ coarseness` (in units of `10 ^ -finest`) that is chosen for a magnitude:
one of its two neighbours, if either reads back. -/
def onGrid? (rank : Fin finiteCount) (coarseness : Nat) : Option Decimal :=
  let magnitude := scaledMagnitude rank
  let cell := quantaPerUnit * Nat.pow 10 coarseness
  let exponent : Int := (coarseness : Int) - finest
  let below : Decimal := ⟨magnitude / cell, exponent⟩
  let above : Decimal := ⟨magnitude / cell + 1, exponent⟩
  let readsBack (d : Decimal) : Bool := d.toDouble false = .finite false rank
  if readsBack below then
    if readsBack above ∧ (2 * (magnitude / cell) + 1) * cell ≤ 2 * magnitude then some above
    else some below
  else if readsBack above then some above
  else none

def expansion (rank : Fin finiteCount) : Decimal :=
  ⟨quanta rank * Nat.pow 5 quantumBits, -(quantumBits : Int)⟩

/-- The number of decimal digits of a positive integer. The bits give it but for one. -/
def digitCount (n : Nat) : Nat :=
  let guess := n.log2 * 30103 / 100000
  if n < Nat.pow 10 guess then guess
  else if n < Nat.pow 10 (guess + 1) then guess + 1
  else guess + 2

/-- The shortest decimal of at most seventeen digits that reads back. -/
def short? (rank : Fin finiteCount) : Option Decimal :=
  let order := digitCount (scaledMagnitude rank / quantaPerUnit)
  (List.range' 1 17).findSome? fun places => onGrid? rank (order - places)

/-- The shortest decimal that reads back. Seventeen digits always suffice; the full expansion
stands behind them. -/
def shortest (rank : Fin finiteCount) : Decimal := (short? rank).getD (expansion rank)

theorem toDouble_onGrid? {rank : Fin finiteCount} {coarseness : Nat} {d : Decimal}
    (h : onGrid? rank coarseness = some d) : d.toDouble false = .finite false rank := by
  unfold onGrid? at h
  simp only [decide_eq_true_eq] at h
  split at h
  · split at h <;> simp_all
  · split at h <;> simp_all

theorem toDouble_expansion (rank : Fin finiteCount) :
    (expansion rank).toDouble false = .finite false rank := by
  have hrank := nearestRank_quanta rank
  unfold quantaPerUnit at hrank
  have h0 : (-(quantumBits : Int)).toNat = 0 := by omega
  have h1 : (-(-(quantumBits : Int))).toNat = quantumBits := by omega
  simp only [Decimal.toDouble, ofQuotient, Decimal.numerator, Decimal.denominator, expansion]
  rw [h0, h1]
  generalize quantumBits = bits at *
  simp only [Nat.pow_eq] at hrank ⊢
  rw [Nat.pow_zero, Nat.mul_one, show 10 = 2 * 5 from rfl, Nat.mul_pow,
    nearestRank_mul_right _ _ _ (Nat.pow_pos (by decide)), hrank, ofRank_val]

theorem toDouble_short? {rank : Fin finiteCount} {d : Decimal} (h : short? rank = some d) :
    d.toDouble false = .finite false rank := by
  obtain ⟨_, _, hgrid⟩ := List.exists_of_findSome?_eq_some h
  exact toDouble_onGrid? hgrid

theorem toDouble_shortest (negative : Bool) (rank : Fin finiteCount) :
    (shortest rank).toDouble negative = .finite negative rank := by
  apply Decimal.toDouble_of_unsigned
  rcases h : short? rank with _ | d
  · rw [shortest, h]; exact toDouble_expansion rank
  · rw [shortest, h]; exact toDouble_short? h

end Double

namespace Decimal

def significant (digits : List Char) : List Char :=
  (digits.reverse.dropWhile (· = '0')).reverse

/-- Written out, with the point after the first `point` digits. -/
def positional (digits : List Char) : Int → List Char
  | .negSucc zeros => '0' :: '.' :: (List.replicate (zeros + 1) '0' ++ digits)
  | .ofNat point =>
    let whole := (digits ++ List.replicate (point - digits.length) '0').take point
    let fraction := digits.drop point
    (if whole = [] then ['0'] else whole) ++ '.' :: (if fraction = [] then ['0'] else fraction)

def signed : Int → List Char
  | .ofNat n => Nat.toDigits 10 n
  | .negSucc n => '-' :: Nat.toDigits 10 (n + 1)

/-- Written with one digit before the point and an exponent. -/
def scientific (digits : List Char) (exponent : Int) : List Char :=
  digits.take 1 ++ (if digits.length ≤ 1 then [] else '.' :: digits.drop 1)
    ++ 'e' :: signed exponent

/-- The point of a decimal counted from its first digit decides which way it is written. -/
def text (d : Decimal) : List Char :=
  let digits := Nat.toDigits 10 d.digits
  let point := d.exponent + digits.length
  if d.digits = 0 then ['0', '.', '0']
  else if -3 ≤ point ∧ point ≤ 16 then positional (significant digits) point
  else scientific (significant digits) (point - 1)

end Decimal

namespace Double

def text : Double → List Char
  | .nan => "NaN".toList
  | .infinite negative => (if negative then ['-'] else []) ++ "inf".toList
  | .finite negative rank =>
    (if negative then ['-'] else []) ++
      (if rank.val = 0 then "0.0".toList else (shortest rank).text)

instance : ToString Double where
  toString d := String.ofList d.text

end Double
end LoxFrontEnd
