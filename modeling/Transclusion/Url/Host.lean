import Transclusion.Decimal.Reading
import Transclusion.Text.Fold
import Transclusion.Text.Punycode
import Transclusion.Url.Percent

/-!
# Hosts of URLs

* `Host.domain?` : a name of labels in lower case, or four numbers;
* `Host.eightGroups?`, `Host.bracketed?` : an address between square brackets;
* `Host.verbatim?` : a host of a scheme that gives it no meaning;
* `Host.port?` : a port, unless it goes without saying.
-/

namespace Transclusion.Host

open Text

/-! ## Numbers -/

/-- A number with its base: `0x` for sixteen, a leading zero for eight. -/
def number? (cs : List Char) : Option Nat :=
  match cs with
  | [] => none
  | '0' :: 'x' :: rest => if rest.isEmpty then some 0 else digitsToNat? 16 rest
  | ['0'] => some 0
  | '0' :: rest => digitsToNat? 8 rest
  | cs => digitsToNat? 10 cs

def withoutEmptyEnd (labels : List (List Char)) : List (List Char) :=
  if 1 < labels.length && labels.getLast? == some [] then labels.dropLast else labels

/-- The last label is a number, so all of them have to be. -/
def endsInNumber (labels : List (List Char)) : Bool :=
  match (withoutEmptyEnd labels).getLast? with
  | some last => !last.isEmpty && (last.all Char.isDigit || ((number? last).isSome && last.head? == some '0'))
  | none => false

/-- The four numbers of an address. The last of its parts fills all places that are left. -/
def address? (labels : List (List Char)) : Option (List Char) := do
  let parts ← (withoutEmptyEnd labels).mapM number?
  let last ← parts.getLast?
  let heads := parts.dropLast
  if 3 < heads.length || heads.any (255 < ·) || Nat.pow 256 (4 - heads.length) ≤ last then none
  else
    let tail := (List.range (4 - heads.length)).reverse.map fun i => last / Nat.pow 256 i % 256
    return joinWith '.' ((heads ++ tail).map fun n => (toString n).toList)

/-! ## Names -/

/-- A character that no name may hold. -/
def isForbidden (c : Char) : Bool :=
  c.toNat ≤ 0x20 || c.toNat == 0x7F || "#%/:<>?@[\\]^|".toList.contains c

def asciiLabel (label : List Char) : List Char :=
  if label.all (·.toNat < 0x80) then label else 'x' :: 'n' :: '-' :: '-' :: punycode label

def isStop (c : Char) : Bool := c == '.' || c == '。' || c == '．' || c == '｡'

/-- A name in lower case and in ASCII, or the address that it stands for. Letters count as they are written: an accent
of its own is not put together with the letter before it. -/
def domain? (cs : List Char) : Option (List Char) := do
  let decoded ← String.fromUTF8? ⟨(Percent.decode cs).toArray⟩
  let folded := decoded.toList.map fun c => if isStop c then '.' else foldChar c
  let labels := (splitOn '.' folded).map asciiLabel
  let name := joinWith '.' labels
  if name.isEmpty || name.any isForbidden then none
  else if endsInNumber labels then address? labels
  else return name

/-! ## Addresses between brackets -/

def group? (cs : List Char) : Option Nat := if cs.length ≤ 4 then digitsToNat? 16 cs else none

def byte? (cs : List Char) : Option Nat :=
  if 1 < cs.length && cs.head? == some '0' then none else (digitsToNat? 10 cs).filter (· ≤ 255)

/-- Four bytes with points between them, as two groups. -/
def byteGroups? (cs : List Char) : Option (List Nat) := do
  match ← (splitOn '.' cs).mapM byte? with
  | [a, b, c, d] => return [256 * a + b, 256 * c + d]
  | _ => none

/-- Groups up to the end of an address, where the last two may be written as four bytes. -/
def groups? : List (List Char) → Option (List Nat)
  | [] => none
  | [last] => ((group? last).map ([·])) <|> byteGroups? last
  | piece :: more => do return (← group? piece) :: (← groups? more)

/-- What stands before and after the first two colons in a row. -/
def cutColons : List Char → Option (List Char × List Char)
  | [] => none
  | ':' :: ':' :: rest => some ([], rest)
  | c :: rest => (cutColons rest).map fun (before, after) => (c :: before, after)

/-- The eight groups of an address. Two colons stand for one group of zeros at least. -/
def eightGroups? (cs : List Char) : Option (List Nat) :=
  match cutColons cs with
  | none => (groups? (splitOn ':' cs)).filter (·.length == 8)
  | some (before, after) => do
    let front ← if before.isEmpty then some [] else (splitOn ':' before).mapM group?
    let back ← if after.isEmpty then some [] else groups? (splitOn ':' after)
    let zeros := 8 - (front.length + back.length)
    if zeros = 0 then none else return front ++ List.replicate zeros 0 ++ back

def hexDigit (d : Nat) : Char := "0123456789abcdef".toList.getD d '0'

def groupText (n : Nat) : List Char :=
  ([n / 4096 % 16, n / 256 % 16, n / 16 % 16].dropWhile (· == 0) ++ [n % 16]).map hexDigit

/-- How many zeros follow one another from a place on. -/
def zerosFrom (gs : List Nat) (i : Nat) : Nat := ((gs.drop i).takeWhile (· == 0)).length

/-- An address with two colons for its longest run of zeros, the first of several. -/
def groupsText (gs : List Nat) : List Char :=
  let isLongest (i : Nat) : Bool :=
    2 ≤ zerosFrom gs i && (List.range gs.length).all fun j => zerosFrom gs j ≤ zerosFrom gs i
  match (List.range gs.length).find? isLongest with
  | none => joinWith ':' (gs.map groupText)
  | some i => joinWith ':' ((gs.take i).map groupText) ++ [':', ':'] ++
      joinWith ':' ((gs.drop (i + zerosFrom gs i)).map groupText)

/-- An address between brackets, in its shortest form. -/
def bracketed? (cs : List Char) : Option (List Char) := do
  let inner ← dropHead? ['['] cs
  let (address, rest) ← cutAt ']' inner
  if rest.isEmpty then return '[' :: groupsText (← eightGroups? address) ++ [']'] else none

example : (bracketed? "[1:0:0:2:0:0:0:9]".toList).map String.ofList = some "[1:0:0:2::9]" := by decide +kernel

/-! ## Hosts that are not looked into -/

/-- A character that no host at all may hold. -/
def isForbiddenVerbatim (c : Char) : Bool :=
  c.toNat == 0 || "\t\n\r #/:<>?@[\\]^|".toList.contains c

/-- A host as it is written. -/
def verbatim? (cs : List Char) : Option (List Char) :=
  if cs.any isForbiddenVerbatim then none else some (Percent.encode Percent.isPlain cs)

/-! ## Ports -/

/-- What follows the host. The standard port is left out. -/
def port? (standard : Option Nat) (cs : List Char) : Option (List Char) := do
  if cs.isEmpty then return []
  let n ← digitsToNat? 10 cs
  if 65535 < n then none
  else if standard == some n then return []
  else return ':' :: (toString n).toList

end Transclusion.Host
