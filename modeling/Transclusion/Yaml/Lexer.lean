import Transclusion.Yaml.Scalars

/-!
# From a text to tokens

* `Lexer` : the state between two tokens: place, tokens so far, indentation, and the places where
  a simple key may have started, one for each open bracket;
* `Lexer.next` : one token more (with the block starts and ends that its column implies);
* `Token.ofText` : all tokens of a text.

A colon turns an earlier token into a key after the fact. The remembered place of that token is
where the key mark is put, together with the start of the mapping if the key opens one.
-/

namespace Transclusion.Yaml

/-- A token that may turn out to be a key when a colon follows on its line. -/
structure SimpleKey where
  /-- How many tokens precede it. -/
  place : Nat
  index : Nat
  line : Nat
  column : Nat
  /-- It stands where only a key can stand. -/
  required : Bool

/-- The state between two tokens. -/
structure Lexer where
  cursor : Cursor
  tokens : Array Token
  /-- Possible keys, the innermost bracket first. -/
  keys : List (Option SimpleKey)
  keyAllowed : Bool
  indent : Int
  outer : List Int

namespace Lexer

def start (cs : List Char) : Lexer := ⟨.start cs, #[], [none], true, -1, []⟩

def inFlow (x : Lexer) : Bool := 1 < x.keys.length

def add (x : Lexer) (t : Token) : Lexer := { x with tokens := x.tokens.push t }

/-! ## Possible keys -/

/-- Forget the possible key of this level; one that is required may not be forgotten. -/
def dropKey (x : Lexer) : Except YamlFault Lexer :=
  match x.keys with
  | some k :: rest => if k.required then .error .simpleKey else .ok { x with keys := none :: rest }
  | _ => .ok x

def saveKey (x : Lexer) : Except YamlFault Lexer := do
  if !x.keyAllowed then return x
  let c := x.cursor
  let required := !x.inFlow && x.indent == (c.column : Int)
  let x ← x.dropKey
  return { x with keys := some ⟨x.tokens.size, c.index, c.line, c.column, required⟩ :: x.keys.drop 1 }

/-- A possible key ends with its line, and after 1024 characters. -/
def isStale (c : Cursor) (k : SimpleKey) : Bool := k.line < c.line || k.index + 1024 < c.index

/-- Forget the possible keys that the place has passed. -/
def dropStale (x : Lexer) : Except YamlFault Lexer := do
  let keys ← x.keys.mapM fun
    | some k =>
      if isStale x.cursor k then (if k.required then .error YamlFault.simpleKey else .ok none)
      else .ok (some k)
    | none => .ok none
  return { x with keys := keys }

/-! ## Indentation -/

/-- A token at a column further in opens a block collection, put at place `at?` or at the end. -/
def openBlock (x : Lexer) (column : Nat) (at? : Option Nat) (t : Token) : Lexer :=
  if !x.inFlow && x.indent < (column : Int) then
    let tokens := match at? with
      | some n => x.tokens.insertIdxIfInBounds n t
      | none => x.tokens.push t
    { x with tokens := tokens, indent := column, outer := x.indent :: x.outer }
  else x

def closeOuter (column : Int) (indent : Int) : List Int → Array Token → Int × List Int × Array Token
  | [], tokens => (indent, [], tokens)
  | i :: rest, tokens =>
    if column < indent then closeOuter column i rest (tokens.push .blockEnd)
    else (indent, i :: rest, tokens)

def closeBlocks (x : Lexer) (column : Int) : Lexer :=
  if x.inFlow then x
  else
    let (indent, outer, tokens) := closeOuter column x.indent x.outer x.tokens
    { x with indent := indent, outer := outer, tokens := tokens }

/-! ## Between tokens -/

/-- Move over gaps, comments and line breaks. A tab counts as a gap only where no key can start. -/
def skipGaps : Nat → Lexer → Lexer
  | 0, x => x
  | fuel + 1, x =>
    let c := x.cursor.skipWhile fun y => y == ' ' || (y == '\t' && (x.inFlow || !x.keyAllowed))
    let c := if c.sees '#' then c.skipWhile (fun y => !isBreak y) else c
    if c.atBreak then
      skipGaps fuel { x with cursor := c.skipBreak, keyAllowed := x.keyAllowed || !x.inFlow }
    else { x with cursor := c }

/-! ## One token -/

def mark (x : Lexer) (n : Nat) (t : Token) : Lexer := ({ x with cursor := x.cursor.skipMany n }).add t

def openFlow (x : Lexer) (t : Token) : Except YamlFault Lexer := do
  let x ← x.saveKey
  return { x.mark 1 t with keys := none :: x.keys, keyAllowed := true }

def closeFlow (x : Lexer) (t : Token) : Except YamlFault Lexer := do
  let x ← x.dropKey
  let keys := if x.inFlow then x.keys.drop 1 else x.keys
  return { x.mark 1 t with keys := keys, keyAllowed := false }

/-- A mark that opens a block collection where it stands outside of brackets. -/
def blockMark (x : Lexer) (opened t : Token) (keyAfter : Bool) : Except YamlFault Lexer := do
  if !x.inFlow && !x.keyAllowed then throw .indentation
  let x := x.openBlock x.cursor.column none opened
  let x ← x.dropKey
  return { x.mark 1 t with keyAllowed := keyAfter }

/-- The colon: after a possible key it makes that a key, else it stands for a key that is not
there or that was marked before. -/
def colon (x : Lexer) : Except YamlFault Lexer :=
  match x.keys with
  | some k :: rest =>
    let x := { x with tokens := x.tokens.insertIdxIfInBounds k.place .key, keys := none :: rest }
    let x := x.openBlock k.column (some k.place) .blockMapping
    .ok { x.mark 1 .value with keyAllowed := false }
  | _ => do
    if !x.inFlow && !x.keyAllowed then throw .indentation
    let x := if x.inFlow then x else x.openBlock x.cursor.column none .blockMapping
    return { x.mark 1 .value with keyAllowed := !x.inFlow }

/-- A token that may be a key, read after `skip` characters. -/
def scalarLike (x : Lexer) (skip : Nat) (read : Cursor → Except YamlFault (Token × Cursor)) :
    Except YamlFault Lexer := do
  let x ← x.saveKey
  let (t, c) ← read (x.cursor.skipMany skip)
  return { x.add t with cursor := c, keyAllowed := false }

def quoted (x : Lexer) (style : Style) : Except YamlFault Lexer :=
  x.scalarLike 1 fun c => do
    let (text, c) ← readQuoted (style == .single) (c.rest.length + 1) [] c
    return (.scalar style (String.ofList text), c)

def blockScalar (x : Lexer) (style : Style) : Except YamlFault Lexer := do
  let x ← x.dropKey
  let (text, c) ← readBlock (style == .literal) x.indent x.cursor.skip
  return { x.add (.scalar style (String.ofList text)) with cursor := c, keyAllowed := true }

def plain (x : Lexer) : Except YamlFault Lexer := do
  let x ← x.saveKey
  let margin := (x.indent + 1).toNat
  let ((text, afterBreak), c) ←
    readPlain x.inFlow margin (x.cursor.rest.length + 1) .none [] x.cursor
  return { x.add (.scalar .plain (String.ofList text)) with cursor := c, keyAllowed := afterBreak }

/-- A line that only belongs between documents. -/
def outside (x : Lexer) : Except YamlFault Lexer := do
  let x ← (x.closeBlocks (-1)).dropKey
  return { x with keyAllowed := false }

/-- Characters that no plain scalar starts with. -/
def isIndicator (c : Char) : Bool := "-?:,[]\x7b\x7d#&*!|>'\"%@`".toList.contains c

def token (x : Lexer) (y : Char) (next : List Char) : Except YamlFault Lexer := do
  let c := x.cursor
  let gap := gapNext next
  if c.column == 0 && y == '%' then
    let x ← x.outside
    let (t, c) ← readDirective c
    return { x.add t with cursor := c }
  else if c.seesMark '-' then return (← x.outside).mark 3 .documentStart
  else if c.seesMark '.' then return (← x.outside).mark 3 .documentEnd
  else if y == '[' then x.openFlow .flowSequence
  else if y == '\x7b' then x.openFlow .flowMapping
  else if y == ']' then x.closeFlow .flowSequenceEnd
  else if y == '\x7d' then x.closeFlow .flowMappingEnd
  else if y == ',' then
    let x ← x.dropKey
    return { x.mark 1 .comma with keyAllowed := true }
  else if y == '-' && gap then x.blockMark .blockSequence .entry true
  else if y == '?' && (x.inFlow || gap) then x.blockMark .blockMapping .key (!x.inFlow)
  else if y == ':' && (x.inFlow || gap) then x.colon
  else if y == '*' then
    x.scalarLike 1 fun c => do let (n, c) ← readName c; return (.alias n, c)
  else if y == '&' then
    x.scalarLike 1 fun c => do let (n, c) ← readName c; return (.anchor n, c)
  else if y == '!' then
    x.scalarLike 0 fun c => do let ((h, s), c) ← readTag x.inFlow c; return (.tag h s, c)
  else if y == '|' && !x.inFlow then x.blockScalar .literal
  else if y == '>' && !x.inFlow then x.blockScalar .folded
  else if y == '\'' then x.quoted .single
  else if y == '"' then x.quoted .double
  else if !(isIndicator y || isGap y) || (y == '-' && !next.head?.any isGap)
      || (!x.inFlow && (y == '?' || y == ':') && !gap) then x.plain
  else throw .character

/-- One token more, or `none` at the end of the text. -/
def next (x : Lexer) : Except YamlFault (Option Lexer × Array Token) := do
  let x ← (x.skipGaps (x.cursor.rest.length + 1)).dropStale
  let x := x.closeBlocks x.cursor.column
  match x.cursor.rest with
  | [] =>
    let x ← (x.closeBlocks (-1)).dropKey
    return (none, x.tokens)
  | y :: rest => return (some (← x.token y rest), #[])

/-- Tokens until the text ends. -/
def run : Nat → Lexer → Except YamlFault (Array Token)
  | 0, _ => .error .unfinished
  | fuel + 1, x => do
    match ← x.next with
    | (some x, _) => run fuel x
    | (none, tokens) => return tokens

end Lexer

def Token.ofText (s : String) : Except YamlFault (List Token) := do
  let cs := match s.toList with
    | c :: rest => if c.toNat == 0xFEFF then rest else c :: rest
    | [] => []
  if !cs.all isAllowed then throw .character
  let tokens ← Lexer.run (cs.length + 2) (.start cs)
  return tokens.toList

end Transclusion.Yaml
