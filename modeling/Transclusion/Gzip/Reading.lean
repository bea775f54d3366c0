import Transclusion.Gzip.Inflate
import Transclusion.Io

/-!
# Gzip streams

* `Gzip.checksum` : the cyclic redundancy check of a stream;
* `Gzip.skipHeader` : what follows the header of a member;
* `Gzip.decode` : the bytes of the first member of a stream.
-/

namespace Transclusion
namespace Gzip

/-! ## Checksum -/

/-- Eight steps of the check. -/
def crcStep : Nat → UInt32 → UInt32
  | 0, c => c
  | n + 1, c => crcStep n (if c &&& 1 = 1 then (c >>> 1) ^^^ 0xEDB88320 else c >>> 1)

def checksum (bs : List UInt8) : UInt32 :=
  bs.foldl (fun c b => crcStep 8 (c ^^^ b.toUInt32)) 0xFFFFFFFF ^^^ 0xFFFFFFFF

def numberOfBytes (bs : List UInt8) : Nat := bs.foldr (fun b n => b.toNat + 256 * n) 0

/-! ## Header -/

def skip (n : Nat) (bs : List UInt8) : Except IoFault (List UInt8) :=
  if bs.length < n then .error .endsEarly else .ok (bs.drop n)

/-- The bytes after the first zero. -/
def skipText (bs : List UInt8) : Except IoFault (List UInt8) :=
  match bs.dropWhile (· != 0) with
  | [] => .error .endsEarly
  | _ :: rest => .ok rest

/-- What follows the header. Its optional parts are announced by the bits of its fourth byte. -/
def skipHeader (bs : List UInt8) : Except IoFault (List UInt8) := do
  let rest ← skip 10 bs
  let flags := (bs[3]?.getD 0).toNat
  if bs.take 3 ≠ [0x1F, 0x8B, 8] || flags ≥ 32 then throw .notGzip
  let rest ← if flags.testBit 2 then (do
      let after ← skip 2 rest
      skip (numberOfBytes (rest.take 2)) after) else pure rest
  let rest ← if flags.testBit 3 then skipText rest else pure rest
  let rest ← if flags.testBit 4 then skipText rest else pure rest
  if flags.testBit 1 then
    let header := bs.take (bs.length - rest.length)
    let after ← skip 2 rest
    if numberOfBytes (rest.take 2) ≠ (checksum header).toNat % Nat.pow 2 16 then throw .wrongChecksum
    return after
  else return rest

/-! ## Streams -/

/-- The bytes of the first member. Whatever follows it is not read. -/
def decode (bs : List UInt8) : Except IoFault (List UInt8) := do
  let rest ← skipHeader bs
  match inflate (bitsOfBytes rest) with
  | .error .short => throw .endsEarly
  | .error .corrupt => throw .corruptGzip
  | .ok (out, bits) =>
    let trailer := bytesOfBits (bits.drop (bits.length % 8))
    let size ← skip 4 trailer
    let _ ← skip 4 size
    let out := out.toList
    if numberOfBytes (trailer.take 4) = (checksum out).toNat
        && numberOfBytes (size.take 4) = out.length % Nat.pow 2 32 then return out
    else throw .wrongChecksum

end Gzip
end Transclusion
