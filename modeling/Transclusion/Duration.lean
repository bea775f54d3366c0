import Transclusion.Decimal.Binary64

/-!
# Durations

* `Duration` : a number of nanoseconds; `Duration.ofSeconds`, `Duration.seconds` : whole seconds;
* `Duration.ofBinary64?` : the nearest duration to a number of seconds, which must be positive and
  below `2 ^ 64`.
-/

namespace Transclusion

structure Duration where
  nanoseconds : Nat
  deriving DecidableEq, Inhabited

namespace Duration

/-- The nanoseconds of a second. -/
def perSecond : Nat := Nat.pow 10 9

def ofSeconds (n : Nat) : Duration := ⟨n * perSecond⟩

def seconds (d : Duration) : Nat := d.nanoseconds / perSecond

def ofBinary64? (x : Binary64) : Option Duration :=
  if !x.isFinite || !x.isPositive || x.exceedsWord then none
  else
    let m := x.significand * perSecond
    match x.exponent with
    | .ofNat e => some ⟨m * Nat.pow 2 e⟩
    | .negSucc e => some ⟨Binary64.roundQuotient m (Nat.pow 2 (e + 1))⟩

theorem seconds_ofSeconds (n : Nat) : (ofSeconds n).seconds = n :=
  Nat.mul_div_cancel n (by decide)

end Duration
end Transclusion
