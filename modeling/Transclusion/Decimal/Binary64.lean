/-!
# Binary floating-point numbers of 64 bits

* `Binary64` : a number as its word; `sign`, `exponentBits`, `fraction` are the three fields,
  `significand` and `exponent` the value `significand * 2 ^ exponent` of a finite number;
* `isNaN`, `isInfinite`, `isFinite`; `sameNumber` : equality of numbers, all NaNs being one
  and both zeros being one;
* `ofQuotient` : the nearest number to a quotient of naturals, ties to even;
* `ofDecimal` : the nearest number to `digits * 10 ^ exponent`;
* `isPositive`, `exceedsWord` : comparisons with `0` and with `2 ^ 64`.

Nothing here computes with machine floats: everything is exact arithmetic on naturals.
-/

namespace Transclusion

/-- A double-precision number, by its word. -/
structure Binary64 where
  bits : UInt64
  deriving DecidableEq, Inhabited

namespace Binary64

/-! ## Fields -/

def word (x : Binary64) : Nat := x.bits.toNat

/-- The number is below zero, or is the negative zero. -/
def sign (x : Binary64) : Bool := Nat.pow 2 63 ≤ x.word

def exponentBits (x : Binary64) : Nat := x.word / Nat.pow 2 52 % Nat.pow 2 11

def fraction (x : Binary64) : Nat := x.word % Nat.pow 2 52

def isFinite (x : Binary64) : Bool := x.exponentBits != 2047

def isNaN (x : Binary64) : Bool := x.exponentBits == 2047 && x.fraction != 0

def isInfinite (x : Binary64) : Bool := x.exponentBits == 2047 && x.fraction == 0

/-- The significand of a finite number, hidden bit included. -/
def significand (x : Binary64) : Nat :=
  if x.exponentBits = 0 then x.fraction else Nat.pow 2 52 + x.fraction

/-- The power of two that the significand is multiplied with. -/
def exponent (x : Binary64) : Int :=
  if x.exponentBits = 0 then -1074 else (x.exponentBits : Int) - 1075

def isZero (x : Binary64) : Bool := x.exponentBits == 0 && x.fraction == 0

/-- The same number: every NaN is the same, and so are the two zeros. -/
def sameNumber (x y : Binary64) : Bool :=
  x == y || (x.isNaN && y.isNaN) || (x.isZero && y.isZero)

/-! ## Special numbers -/

def ofWord (sign : Bool) (magnitude : Nat) : Binary64 :=
  ⟨UInt64.ofNat ((if sign then Nat.pow 2 63 else 0) + magnitude)⟩

def zero (sign : Bool) : Binary64 := ofWord sign 0

def infinity (sign : Bool) : Binary64 := ofWord sign (2047 * Nat.pow 2 52)

def nan : Binary64 := ofWord false (2047 * Nat.pow 2 52 + Nat.pow 2 51)

/-! ## Rounding -/

/-- The nearest natural to `num / den`, ties to even. -/
def roundQuotient (num den : Nat) : Nat :=
  let q := num / den
  let twice := 2 * (num % den)
  if twice < den then q
  else if den < twice then q + 1
  else q + q % 2

/-- The binary exponent of a positive quotient: `2 ^ e ≤ num / den < 2 ^ (e + 1)`. -/
def quotientExponent (num den : Nat) : Int :=
  let e : Int := (Nat.log2 num : Int) - (Nat.log2 den : Int)
  let below := if 0 ≤ e then num < den * Nat.pow 2 e.toNat else num * Nat.pow 2 (-e).toNat < den
  if below then e - 1 else e

/-- The nearest number to `± num / den`, ties to even; too large a quotient is infinite. -/
def ofQuotient (sign : Bool) (num den : Nat) : Binary64 :=
  if num = 0 then zero sign
  else
    let unit := max (quotientExponent num den - 52) (-1074)
    let m :=
      if 0 ≤ unit then roundQuotient num (den * Nat.pow 2 unit.toNat)
      else roundQuotient (num * Nat.pow 2 (-unit).toNat) den
    if m < Nat.pow 2 52 then ofWord sign m
    else
      let magnitude := (unit + 1074).toNat * Nat.pow 2 52 + m
      if magnitude < 2047 * Nat.pow 2 52 then ofWord sign magnitude else infinity sign

/-- The nearest number to `± digits * 10 ^ power`. -/
def ofDecimal (sign : Bool) (digits : Nat) (power : Int) : Binary64 :=
  let count : Int := (Nat.toDigits 10 digits).length
  if digits = 0 then zero sign
  else if 400 < power + count then infinity sign
  else if power + count < -400 then zero sign
  else if 0 ≤ power then ofQuotient sign (digits * Nat.pow 10 power.toNat) 1
  else ofQuotient sign digits (Nat.pow 10 (-power).toNat)

def ofInt (n : Int) : Binary64 := ofQuotient (decide (n < 0)) n.natAbs 1

/-! ## Comparisons -/

def isPositive (x : Binary64) : Bool := !x.sign && !x.isZero && !x.isNaN

def exceedsWord (x : Binary64) : Bool :=
  !x.sign && !x.isNaN && (!x.isFinite || 1023 + 64 ≤ x.exponentBits)

/-! ## Laws of the parts -/

theorem word_lt (x : Binary64) : x.word < Nat.pow 2 64 := x.bits.toNat_lt

theorem fraction_lt (x : Binary64) : x.fraction < Nat.pow 2 52 := Nat.mod_lt _ (by decide)

theorem sameNumber_refl (x : Binary64) : x.sameNumber x = true := by simp [sameNumber]

theorem sameNumber_comm (x y : Binary64) : x.sameNumber y = y.sameNumber x := by
  simp only [sameNumber, Bool.and_comm, Bool.or_assoc]
  rw [show (x == y) = (y == x) from Bool.beq_comm]

theorem not_isFinite_of_isNaN {x : Binary64} (h : x.isNaN = true) : x.isFinite = false := by
  simp only [isNaN, Bool.and_eq_true, beq_iff_eq] at h
  simp [isFinite, h.1]

/-- Rounding a quotient moves it by at most half a unit. -/
theorem roundQuotient_near {den : Nat} (num : Nat) (hd : 0 < den) :
    2 * num ≤ 2 * (roundQuotient num den * den) + den ∧
      2 * (roundQuotient num den * den) ≤ 2 * num + den := by
  have h := Nat.div_add_mod num den
  have hm := Nat.mod_lt num hd
  have hc : den * (num / den) = num / den * den := Nat.mul_comm _ _
  simp only [roundQuotient]
  split
  · omega
  · split
    · rw [Nat.add_mul, Nat.one_mul]; omega
    · rw [Nat.add_mul]
      rcases Nat.mod_two_eq_zero_or_one (num / den) with hp | hp <;> rw [hp] <;> omega

end Binary64
end Transclusion
