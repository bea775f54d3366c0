import Transclusion.Text.Cut

/-!
# Texts in letters, digits and hyphens

* `punycode cs` : the ASCII characters, a hyphen, and where the other characters go between them.

The other characters are taken in ascending order. Each insertion is one number: how many insertions
of smaller characters, or in front of the place, it passes over. A number is written with its lowest
digit first, and how far each digit counts depends on the numbers before it (the bias).
-/

namespace Transclusion.Text.Punycode

/-- The digits `a` to `z` and `0` to `9`. -/
def digitChar (d : Nat) : Char := if d < 26 then Char.ofNat (0x61 + d) else Char.ofNat (0x30 + d - 26)

/-- From which value on a digit at position `k` has further digits after it. -/
def threshold (k bias : Nat) : Nat := max 1 (min 26 (k - bias))

def digits (bias k q : Nat) : List Char :=
  let t := threshold k bias
  if q < t then [digitChar q]
  else digitChar (t + (q - t) % (36 - t)) :: digits bias (k + 36) ((q - t) / (36 - t))
termination_by q
decreasing_by
  have ht : 1 ≤ threshold k bias := Nat.le_max_left _ _
  exact Nat.lt_of_le_of_lt (Nat.div_le_self _ _) (by omega)

/-- How often a number is cut before it is small, and what is left of it. -/
def cuts (delta k : Nat) : Nat × Nat :=
  if 455 < delta then cuts (delta / 35) (k + 36) else (delta, k)
termination_by delta
decreasing_by exact Nat.div_lt_self (by omega) (by omega)

/-- The bias after a number. The first one is large, as it leads to the first character at all. -/
def adapt (delta written : Nat) (isFirst : Bool) : Nat :=
  let d := if isFirst then delta / 700 else delta / 2
  let (rest, k) := cuts (d + d / written) 0
  k + 36 * rest / (rest + 38)

structure Insertions where
  text : List Char
  /-- What the next number has passed over. -/
  delta : Nat
  bias : Nat
  written : Nat

/-- Pass over a character, or insert it where it is the one at hand. -/
def Insertions.pass (plain code : Nat) (i : Insertions) (c : Char) : Insertions :=
  if c.toNat < code then { i with delta := i.delta + 1 }
  else if c.toNat = code then
    ⟨i.text ++ digits i.bias 36 i.delta, 0, adapt i.delta (i.written + 1) (i.written == plain),
      i.written + 1⟩
  else i

/-- Insert the characters of these codes, in order. -/
def insertAll (cs : List Char) (plain : Nat) : (from_ : Nat) → List Nat → Insertions → Insertions
  | _, [], i => i
  | n, code :: rest, i =>
    let i := cs.foldl (Insertions.pass plain code) { i with delta := i.delta + (code - n) * (i.written + 1) }
    insertAll cs plain (code + 1) rest { i with delta := i.delta + 1 }

end Transclusion.Text.Punycode

namespace Transclusion.Text

/-- A text by its ASCII characters and the places of all others. -/
def punycode (cs : List Char) : List Char :=
  let plain := cs.filter fun c => c.toNat < 0x80
  let codes := ((cs.map Char.toNat).filter (0x80 ≤ ·)).mergeSort.eraseReps
  plain ++ (if plain.isEmpty then [] else ['-'])
    ++ (Punycode.insertAll cs plain.length 0x80 codes ⟨[], 0, 72, plain.length⟩).text

end Transclusion.Text
