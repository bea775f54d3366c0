import Transclusion.Yaml.Cursor
import Transclusion.Yaml.Fault

/-!
# Scalars and names in a text

Each function reads one token's text at a cursor and gives what is left.

* `readBlock` : literal and folded scalars; `readQuoted` : single and double quotes;
* `readPlain` : plain scalars;
* `readName`, `readTag`, `readDirective` : anchors and aliases, tags, directive lines.
-/

namespace Transclusion.Yaml

/-! ## Folding -/

/-- What stands between two pieces of a scalar: gaps inside a line, or line breaks, of which the
first is folded. -/
structure Between where
  gaps : List Char
  firstBreak : List Char
  moreBreaks : List Char
  broken : Bool

namespace Between

def none : Between := ⟨[], [], [], false⟩

/-- The text that joins the pieces: a lone line feed becomes a space, further breaks stay. -/
def joint (b : Between) : List Char :=
  if b.broken then
    if b.firstBreak == ['\n'] then (if b.moreBreaks.isEmpty then [' '] else b.moreBreaks)
    else b.firstBreak ++ b.moreBreaks
  else b.gaps

end Between

/-- Read gaps and line breaks. A tab at the start of a line left of `margin` is refused. -/
def readBetween (margin : Nat) : Nat → Between → Cursor → Except YamlFault (Between × Cursor)
  | 0, _, _ => .error .unfinished
  | fuel + 1, b, c =>
    match c.peek with
    | some x =>
      if isGap x then
        if b.broken && c.column < margin && x == '\t' then .error .plainScalar
        else if b.broken then readBetween margin fuel b c.skip
        else readBetween margin fuel { b with gaps := b.gaps ++ [x] } c.skip
      else if isBreak x then
        if b.broken then
          readBetween margin fuel { b with moreBreaks := b.moreBreaks ++ c.breakText } c.skipBreak
        else readBetween margin fuel ⟨[], c.breakText, [], true⟩ c.skipBreak
      else .ok (b, c)
    | none => .ok (b, c)

/-! ## Plain scalars -/

/-- Brackets and the comma, which end a plain scalar inside a flow collection. -/
def isFlowMark (c : Char) : Bool := c == ',' || c == '[' || c == ']' || c == '\x7b' || c == '\x7d'

/-- One run of a plain scalar up to a gap, a break or an indicator that ends it. -/
def readPlainRun (inFlow : Bool) : Nat → List Char → Cursor → Except YamlFault (List Char × Cursor)
  | 0, _, _ => .error .unfinished
  | fuel + 1, acc, c =>
    match c.rest with
    | [] => .ok (acc.reverse, c)
    | x :: next =>
      if isGapOrBreak x then .ok (acc.reverse, c)
      else if inFlow && x == ':' && next.head?.any (fun y => isFlowMark y || y == '?') then
        .error .plainScalar
      else if (x == ':' && gapNext next) || (inFlow && isFlowMark x) then .ok (acc.reverse, c)
      else readPlainRun inFlow fuel (x :: acc) c.skip

/-- A plain scalar, its lines joined. The flag says that it ended after a line break. -/
def readPlain (inFlow : Bool) (margin : Nat) :
    Nat → Between → List Char → Cursor → Except YamlFault ((List Char × Bool) × Cursor)
  | 0, _, _, _ => .error .unfinished
  | fuel + 1, between, acc, c => do
    if c.atDocumentMark || c.sees '#' then return ((acc, between.broken), c)
    let (run, c) ← readPlainRun inFlow (c.rest.length + 1) [] c
    let acc := if run.isEmpty then acc else acc ++ between.joint ++ run
    let between := if run.isEmpty then between else Between.none
    if !(c.atGap || c.atBreak) then return ((acc, between.broken), c)
    let (between, c) ← readBetween margin (c.rest.length + 1) between c
    if !inFlow && c.column < margin then return ((acc, between.broken), c)
    readPlain inFlow margin fuel between acc c

/-! ## Quoted scalars -/

def hexValue? (c : Char) : Option Nat :=
  if c.isDigit then some (c.toNat - '0'.toNat)
  else if 'a' ≤ c && c ≤ 'f' then some (c.toNat - 'a'.toNat + 10)
  else if 'A' ≤ c && c ≤ 'F' then some (c.toNat - 'A'.toNat + 10)
  else none

def hexNumber? (n : Nat) (cs : List Char) : Option Nat :=
  let ds := (cs.take n).filterMap hexValue?
  if ds.length = n then some (ds.foldl (fun a d => a * 16 + d) 0) else none

def charOf? (n : Nat) : Option Char :=
  if n < 0xD800 || (0xE000 ≤ n && n ≤ 0x10FFFF) then some (Char.ofNat n) else none

/-- Escapes of one letter in double quotes. -/
def escapeChar? (c : Char) : Option Char :=
  match c with
  | '0' => some (Char.ofNat 0)
  | 'a' => some (Char.ofNat 7)
  | 'b' => some (Char.ofNat 8)
  | 't' => some '\t'
  | '\t' => some '\t'
  | 'n' => some '\n'
  | 'v' => some (Char.ofNat 11)
  | 'f' => some (Char.ofNat 12)
  | 'r' => some '\r'
  | 'e' => some (Char.ofNat 27)
  | ' ' => some ' '
  | '"' => some '"'
  | '/' => some '/'
  | '\\' => some '\\'
  | 'N' => some (Char.ofNat 0x85)
  | '_' => some (Char.ofNat 0xA0)
  | 'L' => some (Char.ofNat 0x2028)
  | 'P' => some (Char.ofNat 0x2029)
  | _ => none

/-- Escapes by number: how many digits follow the letter. -/
def escapeDigits? (c : Char) : Option Nat :=
  match c with
  | 'x' => some 2
  | 'u' => some 4
  | 'U' => some 8
  | _ => none

/-- One run inside quotes up to a gap, a break or the closing quote. The flag says that the run
ended with an escaped line break. -/
def readQuotedRun (isSingle : Bool) : Nat → List Char → Cursor → Except YamlFault ((List Char × Bool) × Cursor)
  | 0, _, _ => .error .unfinished
  | fuel + 1, acc, c =>
    match c.rest with
    | [] => .ok ((acc.reverse, false), c)
    | x :: next =>
      if isGapOrBreak x then .ok ((acc.reverse, false), c)
      else if isSingle then
        if x == '\'' then
          if next.head? == some '\'' then readQuotedRun isSingle fuel ('\'' :: acc) (c.skipMany 2)
          else .ok ((acc.reverse, false), c)
        else readQuotedRun isSingle fuel (x :: acc) c.skip
      else if x == '"' then .ok ((acc.reverse, false), c)
      else if x == '\\' then
        match next with
        | [] => .error .quotedScalar
        | e :: digits =>
          if isBreak e then .ok ((acc.reverse, true), c.skip.skipBreak)
          else match escapeChar? e with
            | some y => readQuotedRun isSingle fuel (y :: acc) (c.skipMany 2)
            | none =>
              match escapeDigits? e with
              | none => .error .quotedScalar
              | some n =>
                match (hexNumber? n digits).bind charOf? with
                | some y => readQuotedRun isSingle fuel (y :: acc) (c.skipMany (2 + n))
                | none => .error .quotedScalar
      else readQuotedRun isSingle fuel (x :: acc) c.skip

def readQuoted (isSingle : Bool) : Nat → List Char → Cursor → Except YamlFault (List Char × Cursor)
  | 0, _, _ => .error .unfinished
  | fuel + 1, acc, c => do
    if c.atDocumentMark || c.atEnd then throw .quotedScalar
    let ((run, escaped), c) ← readQuotedRun isSingle (c.rest.length + 1) [] c
    let acc := acc ++ run
    if c.sees (if isSingle then '\'' else '"') then return (acc, c.skip)
    let (between, c) ← readBetween 0 (c.rest.length + 1) ⟨[], [], [], escaped⟩ c
    readQuoted isSingle fuel (acc ++ between.joint) c

/-! ## Block scalars -/

/-- What becomes of the line breaks at the end of a block scalar. -/
inductive Chomping where
  | strip
  | clip
  | keep
  deriving DecidableEq

/-- The indicators after `|` or `>`: chomping and indentation, in either order. -/
def readHeader (c : Cursor) : Except YamlFault ((Chomping × Nat) × Cursor) := do
  let chomp (c : Cursor) : Option Chomping :=
    if c.sees '+' then some .keep else if c.sees '-' then some .strip else none
  let digit (c : Cursor) : Except YamlFault (Option Nat) :=
    match c.peek with
    | some x =>
      if x == '0' then .error .blockScalar
      else if x.isDigit then .ok (some (x.toNat - '0'.toNat))
      else .ok none
    | none => .ok none
  match chomp c with
  | some k =>
    let c := c.skip
    match ← digit c with
    | some n => return ((k, n), c.skip)
    | none => return ((k, 0), c)
  | none =>
    match ← digit c with
    | some n =>
      let c := c.skip
      match chomp c with
      | some k => return ((k, n), c.skip)
      | none => return ((.clip, n), c)
    | none => return ((.clip, 0), c)

/-- Blank lines before a line of a block scalar. With `indent` zero the indentation is still to
be found, and `widest` is the widest line so far. -/
def readBlankLines (indent : Nat) : Nat → Nat → List Char → Cursor → Except YamlFault ((Nat × List Char) × Cursor)
  | 0, _, _, _ => .error .unfinished
  | fuel + 1, widest, breaks, c =>
    let spaces := (c.rest.takeWhile (· == ' ')).length
    let room := if indent = 0 then spaces else min spaces (indent - c.column)
    let c := c.skipMany room
    let widest := max widest c.column
    if (indent = 0 || c.column < indent) && c.sees '\t' then .error .blockScalar
    else if c.atBreak then readBlankLines indent fuel widest (breaks ++ c.breakText) c.skipBreak
    else .ok ((widest, breaks), c)

/-- The lines of a block scalar. `pending` is the break after the line before, `blanks` the blank
lines after it, `wasGap` says that the line before started with a gap. -/
def readBlockLines (literal : Bool) (indent : Nat) :
    Nat → (wasGap : Bool) → (pending blanks acc : List Char) → Cursor →
      Except YamlFault ((List Char × List Char × List Char) × Cursor)
  | 0, _, _, _, _, _ => .error .unfinished
  | fuel + 1, wasGap, pending, blanks, acc, c => do
    if c.column != indent || c.atEnd then return ((acc, pending, blanks), c)
    let isGapHere := c.atGap
    let acc :=
      if !literal && pending == ['\n'] && !wasGap && !isGapHere then
        (if blanks.isEmpty then acc ++ [' '] else acc) ++ blanks
      else acc ++ pending ++ blanks
    let (line, c) := c.span (fun x => !isBreak x)
    let pending := c.breakText
    let c := c.skipBreak
    let ((_, blanks), c) ← readBlankLines indent (c.rest.length + 1) 0 [] c
    readBlockLines literal indent fuel isGapHere pending blanks (acc ++ line) c

/-- A block scalar after its `|` or `>`, inside a block of indentation `parent`. -/
def readBlock (literal : Bool) (parent : Int) (c : Cursor) : Except YamlFault (List Char × Cursor) := do
  let ((chomping, increment), c) ← readHeader c
  let c := c.skipComment
  if !c.atLineEnd then throw .blockScalar
  let c := c.skipBreak
  let given : Nat :=
    if increment = 0 then 0 else if 0 ≤ parent then parent.toNat + increment else increment
  let ((widest, blanks), c) ← readBlankLines given (c.rest.length + 1) 0 [] c
  let indent := if given = 0 then max (max widest (parent + 1).toNat) 1 else given
  let ((text, pending, blanks), c) ← readBlockLines literal indent (c.rest.length + 1) false [] blanks [] c
  let text := if chomping == .strip then text else text ++ pending
  return (if chomping == .keep then text ++ blanks else text, c)

/-! ## Names, tags and directives -/

def readName (c : Cursor) : Except YamlFault (String × Cursor) := do
  let (name, c) := c.span isWordChar
  let ends := c.atGapOrEnd || c.rest.head?.any ("?:,]\x7d%@`".toList.contains ·)
  if name.isEmpty || !ends then throw .anchor
  return (String.ofList name, c)

/-- Characters of a tag; the brackets and the comma only where `wide`. -/
def isTagChar (wide : Bool) (c : Char) : Bool :=
  isWordChar c || ";/?:@&=+$.%!~*'()".toList.contains c || (wide && ",[]".toList.contains c)

/-- The octets of a run of tag characters, percent escapes decoded. An escape has to be part of
one well-formed sequence of octets; `more` says how many octets are still due. -/
def tagOctets : List Char → (more : Nat) → Except YamlFault (List UInt8)
  | [], 0 => .ok []
  | [], _ + 1 => .error .tag
  | '%' :: a :: b :: rest, more =>
    match hexValue? a, hexValue? b with
    | some h, some l =>
      let octet := h * 16 + l
      if more = 0 then
        let width :=
          if octet < 0x80 then 1 else if octet / 32 = 6 then 2 else if octet / 16 = 14 then 3
          else if octet / 8 = 30 then 4 else 0
        if width = 0 then .error .tag
        else (tagOctets rest (width - 1)).map (UInt8.ofNat octet :: ·)
      else if octet / 64 = 2 then (tagOctets rest (more - 1)).map (UInt8.ofNat octet :: ·)
      else .error .tag
    | _, _ => .error .tag
  | '%' :: _, _ => .error .tag
  | c :: rest, 0 => (tagOctets rest 0).map ((String.singleton c).toUTF8.toList ++ ·)
  | _ :: _, _ + 1 => .error .tag

/-- A run of tag characters after `head`, whose mark is left out. -/
def readTagText (wide : Bool) (head : List Char) (c : Cursor) : Except YamlFault (List Char × Cursor) := do
  let (run, c) := c.span (isTagChar wide)
  if run.isEmpty && head.isEmpty then throw .tag
  match String.fromUTF8? ⟨(← tagOctets run 0).toArray⟩ with
  | some s => return (head.drop 1 ++ s.toList, c)
  | none => throw .tag

/-- `!`, `!name!` or the beginning of `!name`. -/
def readHandle (inDirective : Bool) (c : Cursor) : Except YamlFault (List Char × Cursor) := do
  if !c.sees '!' then throw .tag
  let (name, c) := c.skip.span isWordChar
  if c.sees '!' then return ('!' :: name ++ ['!'], c.skip)
  if inDirective && !name.isEmpty then throw .tag
  return ('!' :: name, c)

/-- A tag at its mark: `!<text>`, `!handle!suffix`, `!suffix` or `!`. -/
def readTag (inFlow : Bool) (c : Cursor) : Except YamlFault ((String × String) × Cursor) := do
  let ((handle, suffix), c) ←
    (if c.seesSecond '<' then do
      let (text, c) ← readTagText true [] (c.skipMany 2)
      if !c.sees '>' then throw .tag
      return (([], text), c.skip)
    else do
      let (head, c) ← readHandle false c
      if 1 < head.length && head.getLast? == some '!' then
        let (text, c) ← readTagText false [] c
        return ((head, text), c)
      else
        let (text, c) ← readTagText false head c
        return (if text.isEmpty then ([], ['!']) else (['!'], text), c) :
      Except YamlFault ((List Char × List Char) × Cursor))
  if !(c.atGapOrEnd || (inFlow && c.sees ',')) then throw .tag
  return ((String.ofList handle, String.ofList suffix), c)

def readVersionNumber (c : Cursor) : Except YamlFault (Nat × Cursor) := do
  let (ds, c) := c.span Char.isDigit
  if ds.isEmpty || 9 < ds.length then throw .directive
  return (ds.foldl (fun a d => a * 10 + (d.toNat - '0'.toNat)) 0, c)

def readDirective (c : Cursor) : Except YamlFault (Token × Cursor) := do
  let (name, c) := c.skip.span isWordChar
  if name.isEmpty || !c.atGapOrEnd then throw .directive
  let (token, c) ←
    (match String.ofList name with
    | "YAML" => do
      let (major, c) ← readVersionNumber (c.skipWhile isGap)
      if !c.sees '.' then throw .directive
      let (minor, c) ← readVersionNumber c.skip
      return (Token.version major minor, c)
    | "TAG" => do
      let (handle, c) ← readHandle true (c.skipWhile isGap)
      if !c.atGap then throw .directive
      let (head, c) ← readTagText true [] (c.skipWhile isGap)
      if !c.atGapOrEnd then throw .directive
      return (Token.handle (String.ofList handle) (String.ofList head), c)
    | _ => throw .directive : Except YamlFault (Token × Cursor))
  let c := c.skipComment
  if !c.atLineEnd then throw .directive
  return (token, c.skipBreak)

end Transclusion.Yaml
