/-!
# Tokens of a document text

* `Style` : the five spellings of a scalar;
* `Token` : a token, without its place in the text;
* the character classes of the grammar: `isWordChar`, `isBreak`, `isGap`, `isGapOrBreak`.
-/

namespace Transclusion.Yaml

inductive Style where
  | plain
  | single
  | double
  | literal
  | folded
  deriving DecidableEq, Inhabited

/-- A token. Block collections start and end by indentation, flow collections by brackets. -/
inductive Token where
  | version (major minor : Nat)
  | handle (name head : String)
  | documentStart
  | documentEnd
  | blockSequence
  | blockMapping
  | blockEnd
  | flowSequence
  | flowSequenceEnd
  | flowMapping
  | flowMappingEnd
  | entry
  | comma
  | key
  | value
  | alias (name : String)
  | anchor (name : String)
  | tag (handle suffix : String)
  | scalar (style : Style) (text : String)
  deriving DecidableEq, Inhabited

/-! ## Character classes -/

def isWordChar (c : Char) : Bool := c.isAlphanum || c == '_' || c == '-'

def isBreak (c : Char) : Bool :=
  c == '\n' || c == '\r' || c.toNat == 0x85 || c.toNat == 0x2028 || c.toNat == 0x2029

def isGap (c : Char) : Bool := c == ' ' || c == '\t'

def isGapOrBreak (c : Char) : Bool := isGap c || isBreak c

/-- The text ends here, or goes on with a gap or a line break. -/
def gapNext : List Char → Bool
  | [] => true
  | c :: _ => isGapOrBreak c

/-- Characters that may stand in a text at all. -/
def isAllowed (c : Char) : Bool :=
  let n := c.toNat
  n == 0x9 || n == 0xA || n == 0xD || (0x20 ≤ n && n ≤ 0x7E) || n == 0x85 || (0xA0 ≤ n && n ≤ 0xD7FF)
    || (0xE000 ≤ n && n ≤ 0xFFFD && n != 0xFEFF) || 0x10000 ≤ n

end Transclusion.Yaml
