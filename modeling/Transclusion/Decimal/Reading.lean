import Transclusion.Decimal.Binary64

/-!
# Reading numbers

* `digitsToNat?` : a run of digits in a base;
* `Binary64.ofText?` : a finite double from `[+-]digits[.digits][e[+-]digits]`, where digits may
  be missing on one side of the point.
-/

namespace Transclusion

/-- The value of a digit, letters counting from ten. -/
def digitValue? (base : Nat) (c : Char) : Option Nat :=
  let d :=
    if c.isDigit then c.toNat - '0'.toNat
    else if 'a' ≤ c ∧ c ≤ 'z' then c.toNat - 'a'.toNat + 10
    else if 'A' ≤ c ∧ c ≤ 'Z' then c.toNat - 'A'.toNat + 10
    else base
  if d < base then some d else none

def digitsToNat? (base : Nat) (cs : List Char) : Option Nat :=
  if cs.isEmpty then none
  else cs.foldl (fun acc c => do return (← acc) * base + (← digitValue? base c)) (some 0)

/-- A natural number: digits, perhaps after a plus sign. -/
def natural? (base : Nat) (cs : List Char) : Option Nat :=
  match cs with
  | '+' :: rest => digitsToNat? base rest
  | _ => digitsToNat? base cs

def integer? (base : Nat) (cs : List Char) : Option Int :=
  match cs with
  | '-' :: rest => (digitsToNat? base rest).map fun n => -(n : Int)
  | _ => (natural? base cs).map Int.ofNat

namespace Binary64

def ofUnsigned? (sign : Bool) (cs : List Char) : Option Binary64 :=
  let whole := cs.takeWhile Char.isDigit
  let rest := cs.dropWhile Char.isDigit
  let (fraction, rest) := match rest with
    | '.' :: r => (r.takeWhile Char.isDigit, r.dropWhile Char.isDigit)
    | r => ([], r)
  let power : Option Int := match rest with
    | [] => some 0
    | e :: r => if e == 'e' || e == 'E' then integer? 10 r else none
  match digitsToNat? 10 (whole ++ fraction), power with
  | some digits, some p => some (ofDecimal sign digits (p - fraction.length))
  | _, _ => none

/-- A decimal numeral, its value rounded; it may overflow to infinity. -/
def ofText? (cs : List Char) : Option Binary64 :=
  match cs with
  | '-' :: rest => ofUnsigned? true rest
  | '+' :: rest => ofUnsigned? false rest
  | _ => ofUnsigned? false cs

end Binary64
end Transclusion
