import Transclusion.Value.Basic
import Transclusion.Decimal.Reading
import Transclusion.Yaml.Fault

/-!
# What a plain scalar means

* `isNull`, `truth?`, `integer`, `float?` : the spellings of each type;
* `Value.ofPlain` : the value of a plain scalar; a text is what is nothing else.
-/

namespace Transclusion.Yaml

def isNull (s : String) : Bool := s == "~" || s == "null" || s == "Null" || s == "NULL"

def truth? (s : String) : Option Bool :=
  if s == "true" || s == "True" || s == "TRUE" then some true
  else if s == "false" || s == "False" || s == "FALSE" then some false
  else none

/-- Digits that start with a zero, which are a text. -/
def isPaddedDigits (cs : List Char) : Bool :=
  let cs := match cs with
    | '-' :: rest => rest
    | '+' :: rest => rest
    | _ => cs
  match cs with
  | '0' :: rest => !rest.isEmpty && rest.all Char.isDigit
  | _ => false

def startsWithSign (cs : List Char) : Bool := cs.head? == some '+' || cs.head? == some '-'

/-- A natural number in one of four bases, perhaps after a plus sign. -/
def natural? (cs : List Char) : Option Nat :=
  let body := if cs.head? == some '+' then cs.drop 1 else cs
  let based (base : Nat) (rest : List Char) : Option Nat :=
    if startsWithSign rest then none else digitsToNat? base rest
  match body with
  | '0' :: 'x' :: rest => based 16 rest
  | '0' :: 'o' :: rest => based 8 rest
  | '0' :: 'b' :: rest => based 2 rest
  | _ => if startsWithSign body || isPaddedDigits cs then none else digitsToNat? 10 body

/-- A number below zero in one of four bases. -/
def negative? (cs : List Char) : Option Int :=
  let minus (n : Nat) : Int := -(n : Int)
  match cs with
  | '-' :: '0' :: 'x' :: rest => (digitsToNat? 16 rest).map minus
  | '-' :: '0' :: 'o' :: rest => (digitsToNat? 8 rest).map minus
  | '-' :: '0' :: 'b' :: rest => (digitsToNat? 2 rest).map minus
  | '-' :: rest => if isPaddedDigits cs then none else (digitsToNat? 10 rest).map minus
  | _ => none

/-- What a scalar is as an integer. -/
inductive Integral where
  | number (n : Int)
  /-- Beyond 64 bits, yet within 128: a number that no value holds. -/
  | tooWide
  | other

def integral (cs : List Char) : Integral :=
  match natural? cs with
  | some n => if n < Nat.pow 2 64 then .number n else if n < Nat.pow 2 128 then .tooWide else .other
  | none =>
    match negative? cs with
    | some n => if -(Nat.pow 2 63) ≤ n then .number n else if -(Nat.pow 2 127) ≤ n then .tooWide else .other
    | none => .other

/-- The double that a scalar spells; a numeral that overflows spells none. -/
def float? (s : String) : Option Binary64 :=
  let cs := s.toList
  let body := if cs.head? == some '+' then cs.drop 1 else cs
  let isInf (t : String) : Bool := t == ".inf" || t == ".Inf" || t == ".INF"
  if cs.head? == some '+' && startsWithSign body then none
  else if isInf (String.ofList body) then some (.infinity false)
  else if cs.head? == some '-' && isInf (String.ofList (cs.drop 1)) then some (.infinity true)
  else if s == ".nan" || s == ".NaN" || s == ".NAN" then some .nan
  else (Binary64.ofText? body).bind fun x => if x.isFinite then some x else none

def ofPlain (s : String) : Except YamlFault Value :=
  if s.isEmpty || isNull s then .ok .null
  else match truth? s with
    | some b => .ok (.bool b)
    | none =>
      match integral s.toList with
      | .number n => .ok (.number (.int n))
      | .tooWide => .error .forcedScalar
      | .other =>
        if isPaddedDigits s.toList then .ok (.string s)
        else match float? s with
          | some x => .ok (.number (.float x))
          | none => .ok (.string s)

/-- A plain scalar of this text would not be read as this text. -/
def readsOtherwise (s : String) : Bool :=
  match ofPlain s with
  | .ok (.string _) => isPaddedDigits s.toList
  | _ => true

end Transclusion.Yaml
