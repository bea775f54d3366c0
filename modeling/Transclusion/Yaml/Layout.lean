import Transclusion.Yaml.Node

/-!
# From a tree to a text

* `Traits.ofText` : what of a scalar's text rules out a spelling; `Style.choose` : its spelling;
* `Page` : the text so far and what the next mark has to know about its line;
* `Node.text` : a tree as a document in block layout.

Sequences inside a mapping stand at the mapping's own indentation. Keys that are short scalars or
empty collections stand before their colon; all other keys take a line of their own.
-/

namespace Transclusion.Yaml

/-! ## Spelling of scalars -/

structure Traits where
  isEmpty : Bool
  /-- It has a line break. -/
  multiline : Bool
  plainAllowed : Bool
  singleAllowed : Bool
  blockAllowed : Bool

/-- Characters that a text may show as they are. -/
def isPrintable (c : Char) : Bool :=
  let n := c.toNat
  n == 0xA || (0x20 ≤ n && n ≤ 0x7E) || (0xA0 ≤ n && n != 0xFEFF && n != 0xFFFE && n != 0xFFFF)

def isMarkup (isFirst : Bool) (before : Option Char) (c : Char) (after : List Char) : Bool :=
  let gapAfter := gapNext after
  if isFirst then
    "#,[]\x7b\x7d&*!|>'\"%@`".toList.contains c || ((c == '?' || c == ':' || c == '-') && gapAfter)
  else (c == ':' && gapAfter) || (c == '#' && before.all isGapOrBreak)

def hasMarkup : (before : Option Char) → List Char → Bool
  | _, [] => false
  | before, c :: rest => isMarkup before.isNone before c rest || hasMarkup (some c) rest

def hasPair (p q : Char → Bool) : List Char → Bool
  | a :: b :: rest => (p a && q b) || hasPair p q (b :: rest)
  | _ => false

def Traits.ofText (text : String) : Traits :=
  let cs := text.toList
  if cs.isEmpty then ⟨true, false, true, true, false⟩
  else
    let isSpace (c : Char) : Bool := c == ' '
    let edge (p : Char → Bool) : Bool := cs.head?.any p || cs.getLast?.any p
    let multiline := cs.any isBreak
    let breakSpace := hasPair isBreak isSpace cs
    let unfit := hasPair isSpace isBreak cs || !cs.all isPrintable
    let looksMarked := cs.take 3 == ['-', '-', '-'] || cs.take 3 == ['.', '.', '.'] || hasMarkup none cs
    { isEmpty := false
      multiline := multiline
      plainAllowed := !(edge isSpace || edge isBreak || breakSpace || unfit || multiline || looksMarked)
      singleAllowed := !(breakSpace || unfit)
      blockAllowed := !(cs.getLast?.any isSpace || unfit) }

/-- The spelling of a scalar for which `wish` is asked. -/
def Style.choose (wish : Style) (t : Traits) (isKey : Bool) : Style :=
  let s := if isKey && t.multiline then .double else wish
  let s := if s == .plain && (!t.plainAllowed || (t.isEmpty && isKey)) then .single else s
  let s := if s == .single && !t.singleAllowed then .double else s
  if (s == .literal || s == .folded) && (!t.blockAllowed || isKey) then .double else s

/-! ## The page -/

/-- The text so far, newest first, and the state of its last line. -/
structure Page where
  written : List Char
  column : Nat
  /-- The last character was a space, or the line is empty. -/
  afterSpace : Bool
  /-- So far the line holds only indentation and marks that indent. -/
  onlyIndent : Bool

namespace Page

def blank : Page := ⟨[], 0, true, true⟩

def text (p : Page) : String := String.ofList p.written.reverse

def put (p : Page) (c : Char) : Page := { p with written := c :: p.written, column := p.column + 1 }

def putAll (p : Page) (cs : List Char) : Page := cs.foldl put p

def newLine (p : Page) : Page := { p with written := '\n' :: p.written, column := 0 }

/-- Go to a column of a fresh line, or stay on the line if it has only indentation so far. -/
def indentTo (p : Page) (indent : Nat) : Page :=
  let p := if !p.onlyIndent || indent < p.column || (p.column == indent && !p.afterSpace) then p.newLine else p
  let p := p.putAll (List.replicate (indent - p.column) ' ')
  { p with afterSpace := true, onlyIndent := true }

/-- Write a mark, after a space where one is needed. -/
def mark (p : Page) (cs : List Char) (needsSpace indents : Bool) : Page :=
  let p := if needsSpace && !p.afterSpace then p.put ' ' else p
  { p.putAll cs with afterSpace := false, onlyIndent := p.onlyIndent && indents }

/-- A line break inside a scalar; separators of lines and paragraphs stay what they are. -/
def putBreak (p : Page) (c : Char) : Page :=
  if c == '\n' then p.newLine else { p with written := c :: p.written, column := 0 }

/-! ## Scalars -/

def plain (p : Page) (cs : List Char) : Page :=
  let p := if !p.afterSpace && !cs.isEmpty then p.put ' ' else p
  { p.putAll cs with afterSpace := false, onlyIndent := false }

/-- The inside of single quotes. A first line feed is doubled, since folding takes one. -/
def singleBody (indent : Nat) : (afterBreak : Bool) → List Char → Page → Page × Bool
  | afterBreak, [], p => (p, afterBreak)
  | afterBreak, c :: rest, p =>
    if c == ' ' then singleBody indent false rest (p.put c)
    else if isBreak c then
      let p := if !afterBreak && c == '\n' then p.newLine else p
      singleBody indent true rest { p.putBreak c with onlyIndent := true }
    else
      let p := if afterBreak then p.indentTo indent else p
      let p := if c == '\'' then p.put c else p
      singleBody indent false rest { p.put c with onlyIndent := false }

def single (p : Page) (indent : Nat) (cs : List Char) : Page :=
  let p := p.mark ['\''] true false
  let (p, afterBreak) := singleBody indent false cs p
  let p := if afterBreak then p.indentTo indent else p
  { p.mark ['\''] false false with onlyIndent := false }

def hexPadded (width n : Nat) : List Char :=
  let ds := (Nat.toDigits 16 n).map Char.toUpper
  List.replicate (width - ds.length) '0' ++ ds

def doubleChar (c : Char) : List Char :=
  let n := c.toNat
  if isPrintable c && !isBreak c && c != '"' && c != '\\' then [c]
  else '\\' ::
    (if n == 0 then ['0'] else if n == 7 then ['a'] else if n == 8 then ['b'] else if n == 9 then ['t']
    else if n == 10 then ['n'] else if n == 11 then ['v'] else if n == 12 then ['f']
    else if n == 13 then ['r'] else if n == 27 then ['e'] else if c == '"' then ['"']
    else if c == '\\' then ['\\'] else if n == 0x85 then ['N'] else if n == 0xA0 then ['_']
    else if n == 0x2028 then ['L'] else if n == 0x2029 then ['P']
    else if n ≤ 0xFF then 'x' :: hexPadded 2 n
    else if n ≤ 0xFFFF then 'u' :: hexPadded 4 n
    else 'U' :: hexPadded 8 n)

def double (p : Page) (cs : List Char) : Page :=
  let p := p.mark ['"'] true false
  let p := p.putAll (cs.flatMap doubleChar)
  { p.mark ['"'] false false with onlyIndent := false }

/-- What follows the bar: an indentation where the text starts with a gap or break, and the
chomping that its end needs. -/
def literalHints (cs : List Char) : List Char :=
  let indentation := if cs.head?.any (fun c => c == ' ' || isBreak c) then ['2'] else []
  let chomping := match cs.reverse with
    | [] => ['-']
    | c :: before =>
      if !isBreak c then ['-']
      else match before with
        | [] => ['+']
        | d :: _ => if isBreak d then ['+'] else []
  indentation ++ chomping

def literalBody (indent : Nat) : (afterBreak : Bool) → List Char → Page → Page
  | _, [], p => p
  | afterBreak, c :: rest, p =>
    if isBreak c then literalBody indent true rest { p.putBreak c with onlyIndent := true }
    else
      let p := if afterBreak then p.indentTo indent else p
      literalBody indent false rest { p.put c with onlyIndent := false }

def literal (p : Page) (indent : Nat) (cs : List Char) : Page :=
  let p := p.mark ['|'] true false
  let p := (p.putAll (literalHints cs)).newLine
  literalBody indent true cs { p with afterSpace := true, onlyIndent := true }

/-- A scalar; block spellings and broken lines are indented by two more than `indent`. -/
def scalar (p : Page) (indent : Nat) (isKey : Bool) (style : Style) (text : String) : Page :=
  let cs := text.toList
  match Style.choose style (.ofText text) isKey with
  | .plain => p.plain cs
  | .single => p.single indent cs
  | .double => p.double cs
  | .literal | .folded => p.literal indent cs

/-! ## Tags -/

def tagChar (c : Char) : List Char :=
  if isWordChar c || ";/?:@&=+$,.~*'()[]".toList.contains c then [c]
  else (String.singleton c).toUTF8.toList.flatMap fun b => '%' :: hexPadded 2 b.toNat

/-- A tag: with a handle where it starts like one, else in full. -/
def tag (p : Page) (name : Option String) : Page :=
  match name with
  | none => p
  | some name =>
    let core := "tag:yaml.org,2002:".toList
    let cs := name.toList
    let body (cs : List Char) : List Char := cs.flatMap tagChar
    if cs.head? == some '!' && 1 < cs.length then
      p.mark ('!' :: body (cs.drop 1)) true false
    else if cs.take core.length == core && core.length < cs.length then
      p.mark ('!' :: '!' :: body (cs.drop core.length)) true false
    else p.mark ('!' :: '<' :: body cs ++ ['>']) true false

end Page

/-! ## Nodes -/

namespace Node

/-- How many octets a tag takes for the length of a key. -/
def tagLength (name : Option String) : Nat :=
  match name with
  | some n => n.utf8ByteSize
  | none => 0

def isSimpleKey : Node → Bool
  | .scalar tag _ text => !(Traits.ofText text).multiline && tagLength tag + text.utf8ByteSize ≤ 128
  | .sequence tag items => items.isEmpty && tagLength tag ≤ 128
  | .mapping tag entries => entries.isEmpty && tagLength tag ≤ 128
  | .alias _ => true

inductive Position where
  | root
  | item
  | key
  | value
  deriving DecidableEq

/-- The indentation of scalars and collections inside a block of indentation `indent`, which is
none at the root. -/
def deeper (indent : Option Nat) : Nat :=
  match indent with
  | some n => n + 2
  | none => 0

def scalarIndent (indent : Option Nat) : Nat :=
  match indent with
  | some n => n + 2
  | none => 2

mutual

/-- A node inside a block of the given indentation. -/
def write (indent : Option Nat) (position : Position) (simple : Bool) (p : Page) : Node → Page
  | .scalar tag style text => (p.tag tag).scalar (scalarIndent indent) simple style text
  | .sequence tag items =>
    let p := p.tag tag
    if items.isEmpty then p.mark ['[', ']'] true false
    else
      let flat := (position == .key || position == .value) && !p.onlyIndent
      writeItems (if flat then indent.getD 0 else deeper indent) p items
  | .mapping tag entries =>
    let p := p.tag tag
    if entries.isEmpty then p.mark ['\x7b', '\x7d'] true false
    else writeEntries (deeper indent) p entries
  | .alias _ => p

def writeItems (indent : Nat) (p : Page) : List Node → Page
  | [] => p
  | n :: rest =>
    let p := (p.indentTo indent).mark ['-'] true true
    writeItems indent (write (some indent) .item false p n) rest

def writeEntries (indent : Nat) (p : Page) : List (Node × Node) → Page
  | [] => p
  | (k, v) :: rest =>
    let p := p.indentTo indent
    let p :=
      if k.isSimpleKey then (write (some indent) .key true p k).mark [':'] false false
      else
        let p := write (some indent) .key false (p.mark ['?'] true true) k
        (p.indentTo indent).mark [':'] true true
    writeEntries indent (write (some indent) .value false p v) rest

end

def text (n : Node) : String := ((write none .root false .blank n).indentTo 0).text

end Node
end Transclusion.Yaml
