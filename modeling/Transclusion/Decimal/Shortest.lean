import Transclusion.Decimal.Binary64

/-!
# The shortest decimal of a number

* `Decimal` : digits and the position of the point, `0.d₁d₂… * 10 ^ point`;
* `Binary64.shortest` : the fewest digits that round back to a finite number, and of those the
  nearest to it.

The numbers that round to `m * 2 ^ q` fill the interval between its two half-way neighbours,
ends included when `m` is even. On the grid of `n` digits one of the two grid points next to
the number is in that interval if any point is, so the first `n` with a hit is the least.
-/

namespace Transclusion

/-- `0.d₁d₂…dₙ * 10 ^ point`, the digits being those of `digits`. -/
structure Decimal where
  digits : Nat
  point : Int
  deriving DecidableEq, Inhabited

namespace Decimal

def digitChars (d : Decimal) : List Char := Nat.toDigits 10 d.digits

end Decimal

namespace Binary64

structure Quotient where
  num : Nat
  den : Nat

/-- `m * 2 ^ q` as a quotient. -/
def scaled (m : Nat) (q : Int) : Quotient :=
  if 0 ≤ q then ⟨m * Nat.pow 2 q.toNat, 1⟩ else ⟨m, Nat.pow 2 (-q).toNat⟩

def tens (k : Nat) (e : Int) : Quotient :=
  if 0 ≤ e then ⟨k * Nat.pow 10 e.toNat, 1⟩ else ⟨k, Nat.pow 10 (-e).toNat⟩

def Quotient.lt (a b : Quotient) : Bool := a.num * b.den < b.num * a.den

def Quotient.le (a b : Quotient) : Bool := a.num * b.den ≤ b.num * a.den

/-- What rounds to a number: the numbers between two half-way points. -/
structure Interval where
  low : Quotient
  high : Quotient
  closed : Bool

def Interval.contains (i : Interval) (x : Quotient) : Bool :=
  if i.closed then i.low.le x && x.le i.high else i.low.lt x && x.lt i.high

/-- The interval of a positive finite number. Just above a power of two the gap below is half
the gap above. -/
def interval (x : Binary64) : Interval :=
  let m := x.significand
  let q := x.exponent
  let low :=
    if x.fraction = 0 ∧ 1 < x.exponentBits then scaled (4 * m - 1) (q - 2) else scaled (2 * m - 1) (q - 1)
  ⟨low, scaled (2 * m + 1) (q - 1), m % 2 == 0⟩

/-- The point of a positive quotient: `10 ^ (p - 1) ≤ v < 10 ^ p`, found near an estimate. -/
def pointOf (v : Quotient) : Int :=
  let digits (n : Nat) : Int := (Nat.toDigits 10 n).length
  let guess := digits v.num - digits v.den
  if v.lt (tens 1 guess) then guess else guess + 1

/-- The nearest of the two grid points of `n` digits around `v` that lie in the interval. -/
def onGrid (v : Quotient) (i : Interval) (point : Int) (n : Nat) : Option Decimal :=
  let unit := point - n
  let scaledNum := if 0 ≤ unit then v.num else v.num * Nat.pow 10 (-unit).toNat
  let scaledDen := if 0 ≤ unit then v.den * Nat.pow 10 unit.toNat else v.den
  let below := scaledNum / scaledDen
  let twice := 2 * (scaledNum % scaledDen)
  let hit (k : Nat) : Bool := 0 < k && i.contains (tens k unit)
  let aboveFirst := scaledDen < twice || (twice == scaledDen && below % 2 == 1)
  let order := if aboveFirst then [below + 1, below] else [below, below + 1]
  (order.find? hit).map fun k => ⟨k, unit + ((Nat.toDigits 10 k).length : Int)⟩

def stripZeros (fuel : Nat) (n : Nat) : Nat :=
  match fuel with
  | 0 => n
  | fuel + 1 => if n % 10 = 0 ∧ n ≠ 0 then stripZeros fuel (n / 10) else n

/-- The fewest digits that round back to the magnitude of a finite number other than zero. -/
def shortest (x : Binary64) : Decimal :=
  let v := scaled x.significand x.exponent
  let i := x.interval
  let p := pointOf v
  match (List.range 17).findSome? fun n => onGrid v i p (n + 1) with
  | some d => ⟨stripZeros 20 d.digits, d.point⟩
  | none => ⟨0, 0⟩

end Binary64
end Transclusion
