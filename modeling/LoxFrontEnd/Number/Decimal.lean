import LoxFrontEnd.Number.Double

/-! Decimal numbers and their written form. A decimal rounds to the nearest double whatever the
number of its digits. `Double.ofText?` reads the written form: an optional sign, then a decimal
with an optional fraction and exponent, or the word for infinity or NaN in any case. -/

namespace LoxFrontEnd
set_option autoImplicit false

/-- The number `digits * 10 ^ exponent`. -/
structure Decimal where
  digits : Nat
  exponent : Int
  deriving DecidableEq

namespace Decimal

def numerator (d : Decimal) : Nat := d.digits * Nat.pow 10 d.exponent.toNat

def denominator (d : Decimal) : Nat := Nat.pow 10 (-d.exponent).toNat

def toDouble (negative : Bool) (d : Decimal) : Double :=
  .ofQuotient negative d.numerator d.denominator

theorem denominator_pos (d : Decimal) : 0 < d.denominator := Nat.pow_pos (by decide)

/-- A zero moved from the exponent to the digits does not change the double. -/
theorem toDouble_mul_ten (negative : Bool) (digits : Nat) (exponent : Int) :
    toDouble negative ⟨digits * 10, exponent - 1⟩ = toDouble negative ⟨digits, exponent⟩ := by
  apply congrArg (Double.ofRank negative)
  rcases Int.lt_or_le 0 exponent with h | h
  · have he : exponent.toNat = (exponent - 1).toNat + 1 := by omega
    have hn : (-exponent).toNat = 0 := by omega
    have hm : (-(exponent - 1)).toNat = 0 := by omega
    simp only [numerator, denominator, Nat.pow_eq]
    rw [he, hn, hm, Nat.pow_succ, Nat.mul_assoc, Nat.mul_comm 10]
  · have he : (-(exponent - 1)).toNat = (-exponent).toNat + 1 := by omega
    have hn : exponent.toNat = 0 := by omega
    have hm : (exponent - 1).toNat = 0 := by omega
    simp only [numerator, denominator, Nat.pow_eq]
    rw [he, hn, hm, Nat.pow_succ, Nat.pow_zero, Nat.mul_one, Nat.mul_one]
    exact Double.nearestRank_mul_right _ _ _ (by decide)

/-- The sign has no part in rounding. -/
theorem toDouble_of_unsigned {d : Decimal} {rank : Fin finiteCount} (negative : Bool)
    (h : d.toDouble false = .finite false rank) : d.toDouble negative = .finite negative rank := by
  rw [toDouble, Double.ofQuotient, Double.eq_of_ofRank h]
  exact Double.ofRank_val negative rank

/-! ## Reading -/

def splitSign : List Char → Bool × List Char
  | '-' :: cs => (true, cs)
  | '+' :: cs => (false, cs)
  | cs => (false, cs)

def splitFraction : List Char → List Char × List Char
  | '.' :: cs => (cs.takeWhile Char.isDigit, cs.dropWhile Char.isDigit)
  | cs => ([], cs)

/-- The exponent of a decimal: nothing at all, or a letter `e` and an integer. -/
def exponentOf? : List Char → Option Int
  | [] => some 0
  | c :: cs =>
    let (negative, digits) := splitSign cs
    if (c = 'e' ∨ c = 'E') ∧ digits ≠ [] ∧ digits.all Char.isDigit then
      let size : Int := Nat.ofDigitChars 10 digits 0
      some (if negative then -size else size)
    else none

/-- Keeps an exponent where it can still matter: with `count` digits, one that is larger by 400
makes any double infinite, and one smaller by 400 makes it zero. -/
def clampExponent (count : Nat) (exponent : Int) : Int :=
  max (-(count + 400)) (min (count + 400) exponent)

/-- Reads an unsigned decimal; a digit is needed before or after the point. -/
def ofText? (text : List Char) : Option Decimal :=
  let whole := text.takeWhile Char.isDigit
  let (fraction, rest) := splitFraction (text.dropWhile Char.isDigit)
  let digits := whole ++ fraction
  if digits = [] then none
  else (exponentOf? rest).map fun exponent =>
    ⟨Nat.ofDigitChars 10 digits 0, clampExponent digits.length exponent - fraction.length⟩

end Decimal

namespace Double

def ofText? (text : List Char) : Option Double :=
  let (negative, body) := Decimal.splitSign text
  let word := String.ofList (body.map Char.toLower)
  if word = "inf" ∨ word = "infinity" then some (.infinite negative)
  else if word = "nan" then some .nan
  else (Decimal.ofText? body).map (Decimal.toDouble negative)

end Double
end LoxFrontEnd
