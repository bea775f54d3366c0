import Transclusion.Decimal.Reading

/-!
# Percent-encoding

* `Percent.encode` : the bytes of some characters as a percent sign and two digits;
* `Percent.decode` : back to bytes;
* the characters that each part of a URL may not hold as they are.
-/

namespace Transclusion.Percent

def digit (n : Nat) : Char := if n < 10 then Char.ofNat (0x30 + n) else Char.ofNat (0x41 + n - 10)

def byte (b : UInt8) : List Char := ['%', digit (b.toNat / 16), digit (b.toNat % 16)]

/-- The bytes of the characters that do not pass. -/
def encode (passes : Char → Bool) (cs : List Char) : List Char :=
  cs.flatMap fun c => if passes c then [c] else (String.utf8EncodeChar c).flatMap byte

/-- The bytes of a text, where a percent sign with two digits is one byte. -/
def decode : List Char → List UInt8
  | [] => []
  | '%' :: h :: l :: rest =>
    match digitValue? 16 h, digitValue? 16 l with
    | some a, some b => (a * 16 + b).toUInt8 :: decode rest
    | _, _ => 0x25 :: decode (h :: l :: rest)
  | c :: rest => String.utf8EncodeChar c ++ decode rest

/-! ## What passes -/

/-- ASCII that is seen or a blank. -/
def isPlain (c : Char) : Bool := ' ' ≤ c && c ≤ '~'

def inFragment (c : Char) : Bool := isPlain c && !" \"<>\x60".toList.contains c

def inQuery (c : Char) : Bool := isPlain c && !" \"#<>".toList.contains c

def inHostQuery (c : Char) : Bool := inQuery c && c != '\''

def inPath (c : Char) : Bool := inQuery c && !"?^\x60\x7b\x7d".toList.contains c

def inUser (c : Char) : Bool := inPath c && !"/:;=@[\\]|".toList.contains c

theorem encode_of_all_pass {passes : Char → Bool} {cs : List Char} (h : cs.all passes = true) :
    encode passes cs = cs := by
  induction cs with
  | nil => rfl
  | cons c rest ih =>
    simp only [List.all_cons, Bool.and_eq_true] at h
    simp only [encode, List.flatMap_cons, h.1, if_true] at ih ⊢
    rw [ih h.2]
    rfl

end Transclusion.Percent
