import Transclusion.Yaml.Token

/-!
# A place in a text

* `Cursor` : what is left of the text, with line, column and distance from the start;
* `skip`, `skipMany`, `skipBreak` : move on; `readBreak` : move over a line break and keep it;
* `span` : the longest run of characters of a class, on one line.
-/

namespace Transclusion.Yaml

/-- A place in a text: the rest of it, and how far it is. -/
structure Cursor where
  rest : List Char
  index : Nat
  line : Nat
  column : Nat
  deriving Inhabited

namespace Cursor

def start (cs : List Char) : Cursor := ⟨cs, 0, 0, 0⟩

def peek (c : Cursor) : Option Char := c.rest.head?

def sees (c : Cursor) (x : Char) : Bool := c.rest.head? == some x

def seesSecond (c : Cursor) (x : Char) : Bool := c.rest.tail.head? == some x

def atEnd (c : Cursor) : Bool := c.rest.isEmpty

def atBreak (c : Cursor) : Bool := c.rest.head?.any isBreak

def atLineEnd (c : Cursor) : Bool := c.atEnd || c.atBreak

def atGap (c : Cursor) : Bool := c.rest.head?.any isGap

/-- A gap, a line break or the end comes next. -/
def atGapOrEnd (c : Cursor) : Bool := gapNext c.rest

def skipMany (c : Cursor) (n : Nat) : Cursor :=
  ⟨c.rest.drop n, c.index + n, c.line, c.column + n⟩

def skip (c : Cursor) : Cursor := c.skipMany 1

/-- Move over a line break; a carriage return and a line feed together are one. -/
def skipBreak (c : Cursor) : Cursor :=
  match c.rest with
  | '\r' :: '\n' :: rest => ⟨rest, c.index + 2, c.line + 1, 0⟩
  | b :: rest => if isBreak b then ⟨rest, c.index + 1, c.line + 1, 0⟩ else c
  | [] => c

/-- The line break here as it counts in a scalar: separators of lines and paragraphs stay, all
others are a line feed. -/
def breakText (c : Cursor) : List Char :=
  match c.rest with
  | b :: _ => if b.toNat == 0x2028 || b.toNat == 0x2029 then [b] else if isBreak b then ['\n'] else []
  | [] => []

def span (c : Cursor) (p : Char → Bool) : List Char × Cursor :=
  let run := c.rest.takeWhile p
  (run, c.skipMany run.length)

def skipWhile (c : Cursor) (p : Char → Bool) : Cursor := (c.span p).2

/-- Move over gaps and a comment. -/
def skipComment (c : Cursor) : Cursor :=
  let c := c.skipWhile isGap
  if c.sees '#' then c.skipWhile (fun x => !isBreak x) else c

/-- A line of three marks and a gap: the start or the end of a document. -/
def seesMark (c : Cursor) (x : Char) : Bool :=
  c.column == 0 && c.rest.take 3 == [x, x, x] && gapNext (c.rest.drop 3)

def atDocumentMark (c : Cursor) : Bool := c.seesMark '-' || c.seesMark '.'

end Cursor
end Transclusion.Yaml
