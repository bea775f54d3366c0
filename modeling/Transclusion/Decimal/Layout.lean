import Transclusion.Decimal.Shortest

/-!
# Writing a number

* `Layout` : where positional notation ends and how an exponent is written;
* `Layout.write` : the text of a number under a layout.
-/

namespace Transclusion

structure Layout where
  /-- Positional notation for numbers whose point lies above this … -/
  lowestPoint : Int
  /-- … and not above this. -/
  highestPoint : Int
  /-- A plus sign before an exponent that is not negative. -/
  plusInExponent : Bool
  nan : String
  infinity : String
  negativeInfinity : String

namespace Layout

/-- `digits` with the point after the first `point` of them, at least one digit on each side. -/
def positional (digits : List Char) (point : Int) : List Char :=
  if 0 < point then
    let before := point.toNat
    if digits.length ≤ before then
      digits ++ List.replicate (before - digits.length) '0' ++ ['.', '0']
    else digits.take before ++ '.' :: digits.drop before
  else '0' :: '.' :: (List.replicate (-point).toNat '0' ++ digits)

/-- `d.ddde±x`, the point left out after a lone digit. -/
def scientific (l : Layout) (digits : List Char) (point : Int) : List Char :=
  let e := point - 1
  let tail := digits.drop 1
  let power :=
    (if e < 0 then ['-'] else if l.plusInExponent then ['+'] else []) ++ Nat.toDigits 10 e.natAbs
  digits.take 1 ++ (if tail.isEmpty then [] else '.' :: tail) ++ 'e' :: power

def magnitude (l : Layout) (x : Binary64) : List Char :=
  if x.isZero then ['0', '.', '0']
  else
    let d := x.shortest
    if l.lowestPoint < d.point ∧ d.point ≤ l.highestPoint then positional d.digitChars d.point
    else l.scientific d.digitChars d.point

def write (l : Layout) (x : Binary64) : String :=
  if x.isNaN then l.nan
  else if x.isInfinite then (if x.sign then l.negativeInfinity else l.infinity)
  else String.ofList ((if x.sign then ['-'] else []) ++ l.magnitude x)

end Layout
end Transclusion
