/-!
# Deflated data

* `Bits` : bits, the lowest of each byte first; `Bits.number?` takes some of them as a number;
* `Code` : a prefix code by the lengths of its words; `Code.next?` reads one symbol;
* `inflate` : the bytes that deflated data stand for, and the bits after them.
-/

namespace Transclusion
namespace Gzip

inductive Defect where
  /-- The data end too early. -/
  | short
  | corrupt
  deriving DecidableEq

/-! ## Bits -/

abbrev Bits := List Bool

/-- The bits of a byte, the lowest first. -/
def bitsOfByte (b : UInt8) : Bits := (List.range 8).map fun i => b.toNat.testBit i

def bitsOfBytes (bs : List UInt8) : Bits := bs.flatMap bitsOfByte

/-- A number by its bits, the lowest first. -/
def numberOfBits : Bits → Nat
  | [] => 0
  | b :: rest => (if b then 1 else 0) + 2 * numberOfBits rest

/-- The bytes of bits; bits that fill no byte are left out. -/
def bytesOfBits : Bits → List UInt8
  | a :: b :: c :: d :: e :: f :: g :: h :: rest =>
    UInt8.ofNat (numberOfBits [a, b, c, d, e, f, g, h]) :: bytesOfBits rest
  | _ => []

def number (n : Nat) (bits : Bits) : Except Defect (Nat × Bits) :=
  if bits.length < n then .error .short else .ok (numberOfBits (bits.take n), bits.drop n)

/-! ## Prefix codes -/

/-- A prefix code: how many words each length has, from one on, and the symbols in order. -/
structure Code where
  counts : List Nat
  symbols : List Nat

def maxLength : Nat := 15

/-- The space that words of these counts leave, in units of the longest word; `none` if there are
too many words. -/
def spaceLeft (space : Nat) : List Nat → Option Nat
  | [] => some space
  | n :: rest => if 2 * space < n then none else spaceLeft (2 * space - n) rest

/-- The code whose symbol `i` has a word of length `lengths[i]`, or no word if that is zero. All
words must be in use, unless at most one symbol has one. -/
def Code.ofLengths (lengths : List Nat) : Except Defect Code :=
  let indexed := lengths.zipIdx
  let counts := (List.range maxLength).map fun l => lengths.count (l + 1)
  let symbols := (List.range maxLength).flatMap fun l => (indexed.filter (·.1 == l + 1)).map (·.2)
  match spaceLeft 1 counts with
  | none => .error .corrupt
  | some space => if space != 0 && symbols.length > 1 then .error .corrupt else .ok ⟨counts, symbols⟩

/-- Follow a word bit by bit. `word` counts from the first word of the same length, and `before`
symbols have shorter words. -/
def Code.follow (symbols : List Nat) : (counts : List Nat) → (word before : Nat) → Bits →
    Except Defect (Nat × Bits)
  | [], _, _, _ => .error .corrupt
  | _ :: _, _, _, [] => .error .short
  | n :: rest, word, before, b :: bits =>
    let word := 2 * word + (if b then 1 else 0)
    if word < n then
      match symbols[before + word]? with
      | some s => .ok (s, bits)
      | none => .error .corrupt
    else follow symbols rest (word - n) (before + n) bits

def Code.next (c : Code) (bits : Bits) : Except Defect (Nat × Bits) :=
  follow c.symbols c.counts 0 0 bits

/-! ## Blocks -/

/-- The shortest length of each length symbol and the number of its extra bits. -/
def lengthSteps : List (Nat × Nat) := [
  (3, 0), (4, 0), (5, 0), (6, 0), (7, 0), (8, 0), (9, 0), (10, 0), (11, 1), (13, 1), (15, 1),
  (17, 1), (19, 2), (23, 2), (27, 2), (31, 2), (35, 3), (43, 3), (51, 3), (59, 3), (67, 4), (83, 4),
  (99, 4), (115, 4), (131, 5), (163, 5), (195, 5), (227, 5), (258, 0)]

def distanceSteps : List (Nat × Nat) := [
  (1, 0), (2, 0), (3, 0), (4, 0), (5, 1), (7, 1), (9, 2), (13, 2), (17, 3), (25, 3), (33, 4), (49, 4),
  (65, 5), (97, 5), (129, 6), (193, 6), (257, 7), (385, 7), (513, 8), (769, 8), (1025, 9), (1537, 9),
  (2049, 10), (3073, 10), (4097, 11), (6145, 11), (8193, 12), (12289, 12), (16385, 13), (24577, 13)]

/-- A step of a table together with its extra bits. -/
def stepped (steps : List (Nat × Nat)) (symbol : Nat) (bits : Bits) : Except Defect (Nat × Bits) :=
  match steps[symbol]? with
  | none => .error .corrupt
  | some (least, extra) => do
    let (n, bits) ← number extra bits
    return (least + n, bits)

/-- Append `count` bytes, each a copy of the one `distance` before it. -/
def copyBack (distance : Nat) : (count : Nat) → Array UInt8 → Array UInt8
  | 0, out => out
  | count + 1, out => copyBack distance count (out.push (out[out.size - distance]?.getD 0))

def codedBlock (literals distances : Code) : (fuel : Nat) → Array UInt8 → Bits →
    Except Defect (Array UInt8 × Bits)
  | 0, _, _ => .error .corrupt
  | fuel + 1, out, bits => do
    let (s, bits) ← literals.next bits
    if s < 256 then codedBlock literals distances fuel (out.push (UInt8.ofNat s)) bits
    else if s = 256 then return (out, bits)
    else
      let (length, bits) ← stepped lengthSteps (s - 257) bits
      let (d, bits) ← distances.next bits
      let (distance, bits) ← stepped distanceSteps d bits
      if out.size < distance then throw .corrupt
      codedBlock literals distances fuel (copyBack distance length out) bits

/-- The codes of a block that does not bring its own. -/
def fixedLengths : List Nat :=
  List.replicate 144 8 ++ List.replicate 112 9 ++ List.replicate 24 7 ++ List.replicate 8 8

/-- The order in which the lengths of the code for lengths are given. -/
def lengthOrder : List Nat := [16, 17, 18, 0, 8, 7, 9, 6, 10, 5, 11, 4, 12, 3, 13, 2, 14, 1, 15]

def numbers (width : Nat) : (count : Nat) → Bits → Except Defect (List Nat × Bits)
  | 0, bits => .ok ([], bits)
  | count + 1, bits => do
    let (n, bits) ← number width bits
    let (rest, bits) ← numbers width count bits
    return (n :: rest, bits)

/-- Lengths written in a code; symbols from 16 on repeat a length. -/
def codedLengths (c : Code) (count : Nat) : (fuel : Nat) → (done : List Nat) → Bits →
    Except Defect (List Nat × Bits)
  | 0, _, _ => .error .corrupt
  | fuel + 1, done, bits => do
    if done.length = count then return (done.reverse, bits)
    if count < done.length then throw .corrupt
    let (s, bits) ← c.next bits
    if s < 16 then codedLengths c count fuel (s :: done) bits
    else if s = 16 then
      match done with
      | [] => throw .corrupt
      | last :: _ => do
        let (n, bits) ← number 2 bits
        codedLengths c count fuel (List.replicate (n + 3) last ++ done) bits
    else
      let (n, bits) ← if s = 17 then (do let (n, b) ← number 3 bits; return (n + 3, b))
        else (do let (n, b) ← number 7 bits; return (n + 11, b))
      codedLengths c count fuel (List.replicate n 0 ++ done) bits

def ownCodes (bits : Bits) : Except Defect ((Code × Code) × Bits) := do
  let (literals, bits) ← number 5 bits
  let (distances, bits) ← number 5 bits
  let (lengths, bits) ← number 4 bits
  let (given, bits) ← numbers 3 (lengths + 4) bits
  let lengthOf (symbol : Nat) : Nat := ((lengthOrder.zip given).find? (·.1 == symbol)).elim 0 (·.2)
  let c ← Code.ofLengths ((List.range 19).map lengthOf)
  let (all, bits) ← codedLengths c (literals + 257 + distances + 1) (literals + distances + 260) [] bits
  let first ← Code.ofLengths (all.take (literals + 257))
  let second ← Code.ofLengths (all.drop (literals + 257))
  return ((first, second), bits)

/-- A block of bytes as they are, from the next byte on. -/
def storedBlock (out : Array UInt8) (bits : Bits) : Except Defect (Array UInt8 × Bits) := do
  let (n, bits) ← number 16 (bits.drop (bits.length % 8))
  let (check, bits) ← number 16 bits
  if n + check ≠ 0xFFFF then throw .corrupt
  if bits.length < 8 * n then throw .short
  return (out ++ (bytesOfBits (bits.take (8 * n))).toArray, bits.drop (8 * n))

/-- Blocks up to the one that is marked as the last. -/
def blocks : (fuel : Nat) → Array UInt8 → Bits → Except Defect (Array UInt8 × Bits)
  | 0, _, _ => .error .corrupt
  | fuel + 1, out, bits => do
    let (last, bits) ← number 1 bits
    let (kind, bits) ← number 2 bits
    let (out, bits) ← match kind with
      | 0 => storedBlock out bits
      | 1 => do
        let literals ← Code.ofLengths fixedLengths
        let distances ← Code.ofLengths (List.replicate 32 5)
        codedBlock literals distances (bits.length + 1) out bits
      | 2 => do
        let ((literals, distances), bits) ← ownCodes bits
        codedBlock literals distances (bits.length + 1) out bits
      | _ => throw .corrupt
    if last = 1 then return (out, bits) else blocks fuel out bits

/-- The bytes that deflated data stand for, and the bits after them. -/
def inflate (bits : Bits) : Except Defect (Array UInt8 × Bits) := blocks (bits.length + 1) #[] bits

end Gzip
end Transclusion
