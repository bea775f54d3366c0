import Transclusion.Decimal.Reading

/-!
# Dates and times

* `Toml.date?`, `Toml.time?`, `Toml.offset?` : the three parts;
* `Toml.moment?` : a date, a time, or both, written in normal form.

Seconds may be left out, and come out as zero. Of a fraction nine digits count, and zeros at its
end do not.
-/

namespace Transclusion
namespace Toml

def digits? (width : Nat) (cs : List Char) : Option (Nat × List Char) :=
  let taken := cs.take width
  if taken.length = width then (digitsToNat? 10 taken).map (·, cs.drop width) else none

def padded (width n : Nat) : String :=
  let ds := Nat.toDigits 10 n
  String.ofList (List.replicate (width - ds.length) '0' ++ ds)

def isLeapYear (y : Nat) : Bool := y % 4 == 0 && (y % 100 != 0 || y % 400 == 0)

def daysInMonth (y m : Nat) : Nat :=
  if m = 2 then (if isLeapYear y then 29 else 28)
  else if m = 4 || m = 6 || m = 9 || m = 11 then 30 else 31

def date? (cs : List Char) : Option (String × List Char) := do
  let (y, cs) ← digits? 4 cs
  let (m, cs) ← match cs with | '-' :: r => digits? 2 r | _ => none
  let (d, cs) ← match cs with | '-' :: r => digits? 2 r | _ => none
  if m < 1 || 12 < m || d < 1 || daysInMonth y m < d then none
  return (padded 4 y ++ "-" ++ padded 2 m ++ "-" ++ padded 2 d, cs)

def fraction? (cs : List Char) : Option (String × List Char) :=
  let ds := cs.takeWhile Char.isDigit
  if ds.isEmpty then none
  else
    let kept := ((ds.take 9).reverse.dropWhile (· == '0')).reverse
    some (if kept.isEmpty then "" else "." ++ String.ofList kept, cs.dropWhile Char.isDigit)

/-- Seconds with their fraction, after the minutes; without them they are zero. -/
def seconds? (cs : List Char) : Option ((Nat × String) × List Char) :=
  match cs with
  | ':' :: r => do
    let (s, r) ← digits? 2 r
    match r with
    | '.' :: r => (fraction? r).map fun (part, r) => ((s, part), r)
    | r => some ((s, ""), r)
  | r => some ((0, ""), r)

def time? (cs : List Char) : Option (String × List Char) := do
  let (h, cs) ← digits? 2 cs
  let (min, cs) ← match cs with | ':' :: r => digits? 2 r | _ => none
  let ((s, part), cs) ← seconds? cs
  if 23 < h || 59 < min || 60 < s then none
  return (padded 2 h ++ ":" ++ padded 2 min ++ ":" ++ padded 2 s ++ part, cs)

/-- A distance from universal time, or nothing. -/
def offset? (cs : List Char) : Option (String × List Char) :=
  let shift (minus : Bool) (cs : List Char) : Option (String × List Char) := do
    let (h, cs) ← digits? 2 cs
    let (m, cs) ← match cs with | ':' :: r => digits? 2 r | _ => none
    if 23 < h || 59 < m then none
    let sign := if minus && 0 < h + m then "-" else "+"
    return (sign ++ padded 2 h ++ ":" ++ padded 2 m, cs)
  match cs with
  | 'Z' :: r => some ("Z", r)
  | 'z' :: r => some ("Z", r)
  | '+' :: r => shift false r
  | '-' :: r => shift true r
  | _ => some ("", cs)

/-- A text looks like the start of a date or time. -/
def startsMoment (cs : List Char) : Bool :=
  let ds := cs.takeWhile Char.isDigit
  match ds.length, cs.dropWhile Char.isDigit with
  | 4, '-' :: _ => true
  | 2, ':' :: _ => true
  | _, _ => false

def moment? (cs : List Char) : Option (String × List Char) :=
  match date? cs with
  | none => time? cs
  | some (d, rest) =>
    let withTime (cs : List Char) : Option (String × List Char) := do
      let (t, cs) ← time? cs
      let (o, cs) ← offset? cs
      return (d ++ "T" ++ t ++ o, cs)
    match rest with
    | 'T' :: r => withTime r
    | 't' :: r => withTime r
    | ' ' :: c :: r => if c.isDigit then withTime (c :: r) else some (d, rest)
    | _ => some (d, rest)

end Toml
end Transclusion
