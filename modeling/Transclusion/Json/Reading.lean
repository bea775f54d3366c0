import Transclusion.Decimal.Reading
import Transclusion.Decimal.Stepwise
import Transclusion.Value.Entries

/-!
# JSON texts

* `Json.number?`, `Json.string?` : numbers and strings;
* `Json.value?` : a value, with a bound on nesting;
* `Value.ofJson?` : the value of a JSON text.

Integers keep their value as long as they fit 64 bits. A key may be there only once.
-/

namespace Transclusion
namespace Json

def isBlank (c : Char) : Bool := c == ' ' || c == '\n' || c == '\t' || c == '\r'

def skipBlanks (cs : List Char) : List Char := cs.dropWhile isBlank

/-! ## Numbers -/

/-- Digits that are added to a number as long as it fits a word. The digits left over follow. -/
def takeDigits (n : Nat) (taken : Nat) : List Char → Nat × Nat × List Char
  | [] => (n, taken, [])
  | c :: rest =>
    let m := n * 10 + (c.toNat - '0'.toNat)
    if m < Nat.pow 2 64 then takeDigits m (taken + 1) rest else (n, taken, c :: rest)

/-- An exponent beyond this has the effect of one that is infinite. -/
def hugeExponent : Nat := Nat.pow 2 31 - 1

def exponent? (cs : List Char) : Option (Int × List Char) :=
  let (negative, body) := match cs with
    | '-' :: rest => (true, rest)
    | '+' :: rest => (false, rest)
    | _ => (false, cs)
  (digitsToNat? 10 (body.takeWhile Char.isDigit)).map fun n =>
    (if negative then -(n : Int) else n, body.dropWhile Char.isDigit)

/-- A number without its sign. Digits beyond a word count only by their places. -/
def unsigned? (negative : Bool) (cs : List Char) : Option (Number × List Char) := do
  let whole := cs.takeWhile Char.isDigit
  let rest := cs.dropWhile Char.isDigit
  if whole.isEmpty || (whole.head? == some '0' && whole.length > 1) then none
  let (n, _, lost) := takeDigits 0 0 whole
  let (fraction, rest) ← match rest with
    | '.' :: r =>
      let digits := r.takeWhile Char.isDigit
      if digits.isEmpty then none else some (some digits, r.dropWhile Char.isDigit)
    | r => some (none, r)
  let (power, rest) ← match rest with
    | 'e' :: r => (exponent? r).map fun (p, r) => (some p, r)
    | 'E' :: r => (exponent? r).map fun (p, r) => (some p, r)
    | r => some (none, r)
  match fraction, power with
  | none, none =>
    if lost.isEmpty then
      if !negative then return (.int n, rest)
      else if 0 < n && n ≤ Nat.pow 2 63 then return (.int (-(n : Int)), rest)
      else return (.float (.ofQuotient true n 1), rest)
    else return (.float (← Binary64.scaled? negative n lost.length), rest)
  | _, _ =>
    let (n, places, _) := takeDigits n 0 (fraction.getD [])
    let start : Int := (lost.length : Int) - places
    let p := power.getD 0
    if p.natAbs > hugeExponent then
      if n != 0 && 0 < p then none else return (.float (.zero negative), rest)
    else return (.float (← Binary64.scaled? negative n (start + p)), rest)

def number? (cs : List Char) : Option (Number × List Char) :=
  match cs with
  | '-' :: rest => unsigned? true rest
  | _ => unsigned? false cs

/-! ## Strings -/

/-- Four hexadecimal digits. -/
def unit? (cs : List Char) : Option (Nat × List Char) :=
  if cs.length < 4 then none else (digitsToNat? 16 (cs.take 4)).map (·, cs.drop 4)

/-- The character of one or two units of 16 bits, after the first `\u`. -/
def unitChar? (cs : List Char) : Option (Char × List Char) := do
  let (n, rest) ← unit? cs
  if n < 0xD800 || 0xE000 ≤ n then return (Char.ofNat n, rest)
  else if 0xDC00 ≤ n then none
  else match rest with
    | '\\' :: 'u' :: rest =>
      let (low, rest) ← unit? rest
      if 0xDC00 ≤ low && low < 0xE000 then
        return (Char.ofNat (0x10000 + (n - 0xD800) * 0x400 + (low - 0xDC00)), rest)
      else none
    | _ => none

def escaped? : List Char → Option (Char × List Char)
  | '"' :: rest => some ('"', rest)
  | '\\' :: rest => some ('\\', rest)
  | '/' :: rest => some ('/', rest)
  | 'b' :: rest => some (Char.ofNat 8, rest)
  | 'f' :: rest => some (Char.ofNat 0xC, rest)
  | 'n' :: rest => some ('\n', rest)
  | 'r' :: rest => some ('\r', rest)
  | 't' :: rest => some ('\t', rest)
  | 'u' :: rest => unitChar? rest
  | _ => none

def string? : (fuel : Nat) → List Char → Option (String × List Char)
  | 0, _ => none
  | fuel + 1, cs => go fuel [] cs
where
  go : Nat → (done : List Char) → List Char → Option (String × List Char)
    | 0, _, _ => none
    | _ + 1, _, [] => none
    | fuel + 1, done, c :: rest =>
      if c == '"' then some (String.ofList done.reverse, rest)
      else if c == '\\' then
        match escaped? rest with
        | some (d, rest) => go fuel (d :: done) rest
        | none => none
      else if c.toNat < 0x20 then none
      else go fuel (c :: done) rest

/-! ## Values -/

def maxDepth : Nat := 127

def word? (w : String) (v : Value) (cs : List Char) : Option (Value × List Char) :=
  if cs.take w.length == w.toList then some (v, cs.drop w.length) else none

mutual

/-- A value with at most `depth` arrays and objects inside one another. -/
def value? : (fuel depth : Nat) → List Char → Option (Value × List Char)
  | 0, _, _ => none
  | fuel + 1, depth, cs =>
    match skipBlanks cs with
    | [] => none
    | '"' :: rest => (string? (rest.length + 2) rest).map fun (s, rest) => (.string s, rest)
    | '[' :: rest =>
      match depth with
      | 0 => none
      | depth + 1 =>
        match skipBlanks rest with
        | ']' :: rest => some (.sequence [], rest)
        | rest => items? fuel depth [] rest
    | '\x7b' :: rest =>
      match depth with
      | 0 => none
      | depth + 1 =>
        match skipBlanks rest with
        | '\x7d' :: rest => some (.mapping [], rest)
        | rest => members? fuel depth [] rest
    | 'n' :: rest => word? "null" .null ('n' :: rest)
    | 't' :: rest => word? "true" (.bool true) ('t' :: rest)
    | 'f' :: rest => word? "false" (.bool false) ('f' :: rest)
    | rest => (number? rest).map fun (n, rest) => (.number n, rest)

/-- The items of an array up to its closing bracket; `done` is in reverse order. -/
def items? : (fuel depth : Nat) → (done : List Value) → List Char → Option (Value × List Char)
  | 0, _, _, _ => none
  | fuel + 1, depth, done, cs =>
    match value? fuel depth cs with
    | none => none
    | some (v, rest) =>
      match skipBlanks rest with
      | ',' :: rest => items? fuel depth (v :: done) rest
      | ']' :: rest => some (.sequence (v :: done).reverse, rest)
      | _ => none

def members? : (fuel depth : Nat) → (done : Entries) → List Char → Option (Value × List Char)
  | 0, _, _, _ => none
  | fuel + 1, depth, done, cs =>
    match skipBlanks cs with
    | '"' :: rest =>
      match string? (rest.length + 2) rest with
      | none => none
      | some (key, rest) =>
        match skipBlanks rest with
        | ':' :: rest =>
          match value? fuel depth rest with
          | none => none
          | some (v, rest) =>
            if Entries.hasKey (.string key) done then none
            else
              match skipBlanks rest with
              | ',' :: rest => members? fuel depth (done ++ [(.string key, v)]) rest
              | '\x7d' :: rest => some (.mapping (done ++ [(.string key, v)]), rest)
              | _ => none
        | _ => none
    | _ => none

end

end Json

def Value.ofJson? (text : String) : Option Value :=
  match Json.value? (2 * text.length + 2) Json.maxDepth text.toList with
  | some (v, rest) => if (Json.skipBlanks rest).isEmpty then some v else none
  | none => none

end Transclusion
