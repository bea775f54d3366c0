import Transclusion.Decimal.Binary64

/-!
# Decimal numerals read in two roundings

* `Binary64.times`, `Binary64.dividedBy` : product and quotient of finite numbers, rounded;
* `Binary64.scaled?` : digits rounded first, then multiplied with or divided by a rounded power of
  ten. The result may be off by one unit from the nearest number.
-/

namespace Transclusion
namespace Binary64

/-- The nearest number to `± num / den * 2 ^ e`. -/
def ofScaledQuotient (sign : Bool) (num den : Nat) (e : Int) : Binary64 :=
  if 0 ≤ e then ofQuotient sign (num * Nat.pow 2 e.toNat) den else ofQuotient sign num (den * Nat.pow 2 (-e).toNat)

def times (x y : Binary64) : Binary64 :=
  ofScaledQuotient (x.sign != y.sign) (x.significand * y.significand) 1 (x.exponent + y.exponent)

def dividedBy (x y : Binary64) : Binary64 :=
  ofScaledQuotient (x.sign != y.sign) x.significand y.significand (x.exponent - y.exponent)

def powerOfTen (n : Nat) : Binary64 := ofDecimal false 1 n

def topPower : Nat := 308

/-- A number times `10 ^ power`, in steps of at most `10 ^ 308`; `none` if it is too large. -/
def scaleBy? : (fuel : Nat) → Binary64 → (power : Int) → Option Binary64
  | 0, x, _ => some x
  | fuel + 1, x, power =>
    if power.natAbs ≤ topPower then
      if 0 ≤ power then
        let y := x.times (powerOfTen power.toNat)
        if y.isInfinite then none else some y
      else some (x.dividedBy (powerOfTen power.natAbs))
    else if x.isZero then some x
    else if 0 ≤ power then none
    else scaleBy? fuel (x.dividedBy (powerOfTen topPower)) (power + topPower)

/-- `± digits * 10 ^ power`. A word of digits divided by `10 ^ 308` three times is zero, so four
steps are enough. -/
def scaled? (sign : Bool) (digits : Nat) (power : Int) : Option Binary64 :=
  (scaleBy? 4 (ofQuotient false digits 1) power).map fun x => if sign then ofWord true x.word else x

end Binary64
end Transclusion
