import Transclusion.Text.Blank
import Transclusion.Text.Fold
import Transclusion.Text.Letter

/-!
# Regular expressions

* `CharClass`, `CharClass.has` : sets of characters;
* `Assertion.holds` : conditions on the characters before and after a place;
* `Regex` : regular expressions; `Regex.passes` : a match of nothing at a place;
  `Regex.after` : what is left to be matched after one character;
* `Regex.matchesHere`, `Regex.finds` : some run of characters from a place on, or from any place.
-/

namespace Transclusion

/-! ## Sets of characters -/

inductive CharClass where
  | none
  | range (first last : Char)
  | digit
  | blank
  | word
  | letter
  | number
  | mark
  | union (a b : CharClass)
  | inter (a b : CharClass)
  | compl (a : CharClass)
  /-- Every character that differs from one of the set in case only. -/
  | anyCase (a : CharClass)
  deriving DecidableEq, Inhabited

/-- Punctuation that joins the parts of a word. -/
def connectorRanges : List (Nat × Nat) := [
  (0x5F, 0x5F), (0x203F, 0x2040), (0x2054, 0x2054), (0xFE33, 0xFE34), (0xFE4D, 0xFE4F),
  (0xFF3F, 0xFF3F)]

def isWordChar (c : Char) : Bool :=
  Text.isLetter c || Text.isMark c || Text.isDecimalDigit c || Text.inRanges connectorRanges c
    || c.toNat == 0x200C || c.toNat == 0x200D

namespace CharClass

def one (c : Char) : CharClass := .range c c

def has : CharClass → Char → Bool
  | .none, _ => false
  | .range first last, c => first ≤ c && c ≤ last
  | .digit, c => Text.isDecimalDigit c
  | .blank, c => Text.isBlank c
  | .word, c => isWordChar c
  | .letter, c => Text.isLetter c
  | .number, c => Text.isNumeric c
  | .mark, c => Text.isMark c
  | .union a b, c => a.has c || b.has c
  | .inter a b, c => a.has c && b.has c
  | .compl a, c => !a.has c
  | .anyCase a, c => (Text.caseVariants c).any a.has

end CharClass

/-! ## Conditions on a place -/

/-- A condition on the characters around a place. -/
inductive Assertion where
  | textStart
  | textEnd
  | lineStart
  | lineEnd
  /-- Line starts and ends where a carriage return counts as part of a line's end. -/
  | crlfLineStart
  | crlfLineEnd
  | boundary
  | noBoundary
  | wordStart
  | wordEnd
  | wordStartHalf
  | wordEndHalf
  deriving DecidableEq, Inhabited

/-- A condition holds between two characters, either of which may be missing. -/
def Assertion.holds (a : Assertion) (before after : Option Char) : Bool :=
  let inWord (c : Option Char) : Bool := c.any isWordChar
  match a with
  | textStart => before.isNone
  | textEnd => after.isNone
  | lineStart => before.all (· == '\n')
  | lineEnd => after.all (· == '\n')
  | crlfLineStart => before.all (· == '\n') || (before == some '\r' && after != some '\n')
  | crlfLineEnd => after.all (· == '\r') || (after == some '\n' && before != some '\r')
  | boundary => inWord before != inWord after
  | noBoundary => inWord before == inWord after
  | wordStart => !inWord before && inWord after
  | wordEnd => inWord before && !inWord after
  | wordStartHalf => !inWord before
  | wordEndHalf => !inWord after

/-! ## Regular expressions -/

inductive Regex where
  | never
  | nothing
  | chars (k : CharClass)
  | check (a : Assertion)
  | seq (r s : Regex)
  | alt (r s : Regex)
  | star (r : Regex)
  deriving DecidableEq, Inhabited

namespace Regex

/-- Nothing is matched at a place between two characters. -/
def passes (before after : Option Char) : Regex → Bool
  | .never => false
  | .nothing => true
  | .chars _ => false
  | .check a => a.holds before after
  | .seq r s => r.passes before after && s.passes before after
  | .alt r s => r.passes before after || s.passes before after
  | .star _ => true

/-- A sequence, without parts that add nothing. -/
def andThen (r s : Regex) : Regex :=
  match r with
  | .never => .never
  | .nothing => s
  | _ => .seq r s

/-- An alternative is among those of an expression. -/
def offers (r : Regex) : Regex → Bool
  | .alt s t => r == .alt s t || s == r || offers r t
  | s => s == r

def or (r s : Regex) : Regex :=
  match r, s with
  | .never, s => s
  | r, .never => r
  | r, s => if offers r s then s else .alt r s

/-- What is left to be matched after the character `c` that follows `before`. -/
def after (before : Option Char) (c : Char) : Regex → Regex
  | .never => .never
  | .nothing => .never
  | .chars k => if k.has c then .nothing else .never
  | .check _ => .never
  | .seq r s =>
    let first := (r.after before c).andThen s
    if r.passes before (some c) then first.or (s.after before c) else first
  | .alt r s => (r.after before c).or (s.after before c)
  | .star r => (r.after before c).andThen (.star r)

/-- A run of characters from this place on is matched. -/
def matchesHere (r : Regex) (before : Option Char) : List Char → Bool
  | [] => r.passes before .none
  | c :: rest =>
    r.passes before (some c)
      || (let left := r.after before c
          left != .never && left.matchesHere (some c) rest)

/-- A run of characters from this or a later place on is matched. -/
def findsFrom (r : Regex) (before : Option Char) : List Char → Bool
  | [] => r.matchesHere before []
  | c :: rest => r.matchesHere before (c :: rest) || r.findsFrom (some c) rest

def finds (r : Regex) (text : String) : Bool := r.findsFrom .none text.toList

def size : Regex → Nat
  | .seq r s => r.size + s.size + 1
  | .alt r s => r.size + s.size + 1
  | .star r => r.size + 1
  | _ => 1

def times (r : Regex) : Nat → Regex
  | 0 => .nothing
  | 1 => r
  | n + 1 => .seq r (times r n)

def upTo (r : Regex) : Nat → Regex
  | 0 => .nothing
  | n + 1 => .alt (.seq r (upTo r n)) .nothing

end Regex
end Transclusion
