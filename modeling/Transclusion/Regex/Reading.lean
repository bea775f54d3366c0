import Transclusion.Regex.Basic
import Transclusion.Decimal.Reading

/-!
# Written regular expressions

* `Flags` : the switches that an expression may set for itself;
* `escape?` : what a backslash introduces; `classBody` : sets in brackets;
* `alternatives` : expressions, with groups inside them;
* `Regex.ofText?` : the expression that a text spells, if it spells one.
-/

namespace Transclusion
namespace Regex

open CharClass (one)

/-! ## Switches -/

structure Flags where
  ignoreCase : Bool := false
  multiLine : Bool := false
  dotAll : Bool := false
  extended : Bool := false
  unicode : Bool := true
  crlf : Bool := false
  /-- Shorter runs are preferred. Which runs are matched does not depend on it. -/
  lazily : Bool := false

def Flags.set? (f : Flags) (c : Char) (on : Bool) : Option Flags :=
  match c with
  | 'i' => some { f with ignoreCase := on }
  | 'm' => some { f with multiLine := on }
  | 's' => some { f with dotAll := on }
  | 'x' => some { f with extended := on }
  | 'u' => some { f with unicode := on }
  | 'R' => some { f with crlf := on }
  | 'U' => some { f with lazily := on }
  | _ => none

/-- Switch letters up to a colon or closing parenthesis, which is given back with what follows it.
No letter may come twice, and the minus sign only once and before a letter. -/
def switches (f : Flags) (seen : List Char) (on : Bool) : List Char →
    Option (Flags × List Char × Char × List Char)
  | [] => none
  | c :: rest =>
    if c == ':' || c == ')' then if seen.head? == some '-' then none else some (f, seen, c, rest)
    else if seen.contains c then none
    else if c == '-' then switches f (c :: seen) false rest
    else (f.set? c on).bind fun f => switches f (c :: seen) on rest

/-- What follows blanks and comments, which are skipped in extended expressions. -/
def skipBlanks (f : Flags) : List Char → List Char
  | [] => []
  | c :: rest =>
    if !f.extended then c :: rest
    else if Text.isBlank c then skipBlanks f rest
    else if c == '#' then comment f rest
    else c :: rest
where
  comment (f : Flags) : List Char → List Char
    | [] => []
    | c :: rest => if c == '\n' then skipBlanks f rest else comment f rest

/-! ## Sets with names -/

def shorthand? (f : Flags) (c : Char) : Option CharClass :=
  let asciiWord : CharClass :=
    .union (.range '0' '9') (.union (.range 'A' 'Z') (.union (one '_') (.range 'a' 'z')))
  let asciiBlank : CharClass := .union (.range '\t' '\r') (one ' ')
  let pick (all ascii : CharClass) : CharClass := if f.unicode then all else ascii
  match c with
  | 'd' => some (pick .digit (.range '0' '9'))
  | 's' => some (pick .blank asciiBlank)
  | 'w' => some (pick .word asciiWord)
  | 'D' => if f.unicode then some (.compl .digit) else none
  | 'S' => if f.unicode then some (.compl .blank) else none
  | 'W' => if f.unicode then some (.compl .word) else none
  | _ => none

def asciiClass? (name : String) : Option CharClass :=
  let lower : CharClass := .range 'a' 'z'
  let upper : CharClass := .range 'A' 'Z'
  let digits : CharClass := .range '0' '9'
  let alpha : CharClass := .union lower upper
  match name with
  | "alnum" => some (.union alpha digits)
  | "alpha" => some alpha
  | "ascii" => some (.range (Char.ofNat 0) (Char.ofNat 0x7F))
  | "blank" => some (.union (one '\t') (one ' '))
  | "cntrl" => some (.union (.range (Char.ofNat 0) (Char.ofNat 0x1F)) (one (Char.ofNat 0x7F)))
  | "digit" => some digits
  | "graph" => some (.range '!' '~')
  | "lower" => some lower
  | "print" => some (.range ' ' '~')
  | "punct" => some (.union (.range '!' '/') (.union (.range ':' '@') (.union (.range '[' '`') (.range '\x7b' '~'))))
  | "space" => some (.union (.range '\t' '\r') (one ' '))
  | "upper" => some upper
  | "word" => some (.union alpha (.union digits (one '_')))
  | "xdigit" => some (.union digits (.union (.range 'a' 'f') (.range 'A' 'F')))
  | _ => none

/-- A set by the name of a property. Case, blanks, hyphens and underscores do not count. -/
def property? (name : List Char) : Option CharClass :=
  let plain := (name.filter fun c => !(c == ' ' || c == '-' || c == '_')).map Char.toLower
  match String.ofList plain with
  | "any" => some (.compl .none)
  | "ascii" => some (.range (Char.ofNat 0) (Char.ofNat 0x7F))
  | "alphabetic" | "alpha" | "l" | "letter" => some .letter
  | "n" | "number" => some .number
  | "nd" | "decimalnumber" | "digit" => some .digit
  | "m" | "mark" | "combiningmark" => some .mark
  | "whitespace" | "space" => some .blank
  | _ => none

/-! ## Escapes -/

inductive Escape where
  | char (c : Char)
  | set (k : CharClass)
  | check (a : Assertion)

def isMeta (c : Char) : Bool := "\\.+*?()|[]\x7b\x7d^$#&-~".toList.contains c

def isEscapable (c : Char) : Bool :=
  isMeta c || (c.toNat < 0x80 && !c.isAlphanum && c != '<' && c != '>')

def hexChar? (digits : List Char) : Option Char :=
  (digitsToNat? 16 digits).bind fun n => if n.isValidChar then some (Char.ofNat n) else none

/-- A number of `width` digits, or of any digits in braces. -/
def hexEscape? (width : Nat) (cs : List Char) : Option (Char × List Char) :=
  match cs with
  | '\x7b' :: rest =>
    let digits := rest.takeWhile (· != '\x7d')
    match rest.dropWhile (· != '\x7d') with
    | _ :: after => (hexChar? digits).map (·, after)
    | [] => none
  | _ => if cs.length < width then none else (hexChar? (cs.take width)).map (·, cs.drop width)

def propertyEscape? (cs : List Char) : Option (CharClass × List Char) :=
  let named (name : List Char) : Option CharClass :=
    match name with
    | '^' :: name => (property? name).map .compl
    | _ => property? name
  match cs with
  | '\x7b' :: rest =>
    match rest.dropWhile (· != '\x7d') with
    | _ :: after => (named (rest.takeWhile (· != '\x7d'))).map (·, after)
    | [] => none
  | c :: rest => (property? [c]).map (·, rest)
  | [] => none

/-- The kinds of word boundary with a name in braces. -/
def boundaryOfName? (name : String) : Option Assertion :=
  match name with
  | "start" => some .wordStart
  | "end" => some .wordEnd
  | "start-half" => some .wordStartHalf
  | "end-half" => some .wordEndHalf
  | _ => none

/-- A word boundary, perhaps of a kind that is named in braces. -/
def boundaryEscape? (cs : List Char) : Option (Assertion × List Char) :=
  let isNameChar (c : Char) : Bool := c.isAlpha || c == '-'
  match cs with
  | '\x7b' :: rest =>
    let name := rest.takeWhile isNameChar
    match name, rest.dropWhile isNameChar with
    | [], _ :: _ => some (.boundary, cs)
    | _, '\x7d' :: after => (boundaryOfName? (String.ofList name)).map (·, after)
    | _, _ => none
  | _ => some (.boundary, cs)

def escape? (f : Flags) : List Char → Option (Escape × List Char)
  | [] => none
  | c :: rest =>
    let char (c : Char) : Option (Escape × List Char) := some (.char c, rest)
    match c with
    | 'a' => char (Char.ofNat 7)
    | 'f' => char (Char.ofNat 0xC)
    | 't' => char '\t'
    | 'n' => char '\n'
    | 'r' => char '\r'
    | 'v' => char (Char.ofNat 0xB)
    | 'x' => (hexEscape? 2 rest).map fun (c, rest) => (.char c, rest)
    | 'u' => (hexEscape? 4 rest).map fun (c, rest) => (.char c, rest)
    | 'U' => (hexEscape? 8 rest).map fun (c, rest) => (.char c, rest)
    | 'p' => if f.unicode then (propertyEscape? rest).map fun (k, rest) => (.set k, rest) else none
    | 'P' => if f.unicode then (propertyEscape? rest).map fun (k, rest) => (.set (.compl k), rest) else none
    | 'A' => some (.check .textStart, rest)
    | 'z' => some (.check .textEnd, rest)
    | 'b' => (boundaryEscape? rest).map fun (a, rest) => (.check a, rest)
    | 'B' => some (.check .noBoundary, rest)
    | '<' => some (.check .wordStart, rest)
    | '>' => some (.check .wordEnd, rest)
    | _ =>
      if isEscapable c then char c
      else (shorthand? f c).map fun k => (.set k, rest)

/-! ## Sets in brackets -/

/-- How two sets in brackets are put together. -/
inductive SetOp where
  | inter
  | diff
  | either

def SetOp.apply (op : SetOp) (a b : CharClass) : CharClass :=
  match op with
  | inter => .inter a b
  | diff => .inter a (.compl b)
  | either => .union (.inter a (.compl b)) (.inter b (.compl a))

def cased (f : Flags) (k : CharClass) : CharClass := if f.ignoreCase then .anyCase k else k

def classItem? (f : Flags) : List Char → Option ((Char ⊕ CharClass) × List Char)
  | [] => none
  | '\\' :: rest =>
    match escape? f rest with
    | some (.char c, rest) => some (.inl c, rest)
    | some (.set k, rest) => some (.inr k, rest)
    | _ => none
  | c :: rest => some (.inl c, rest)

def classRange? (f : Flags) (cs : List Char) : Option (CharClass × List Char) := do
  let (item, rest) ← classItem? f cs
  let alone : CharClass := match item with
    | .inl c => cased f (one c)
    | .inr k => k
  match skipBlanks f rest with
  | [] => none
  | '-' :: after =>
    match skipBlanks f after with
    | ']' :: _ => return (alone, skipBlanks f rest)
    | '-' :: _ => return (alone, skipBlanks f rest)
    | after =>
      let (last, rest) ← classItem? f after
      match item, last with
      | .inl a, .inl b => if a ≤ b then return (cased f (.range a b), rest) else none
      | _, _ => none
  | rest => return (alone, rest)

/-- A set between `[:` and `:]`, after the opening bracket. -/
def asciiItem? (f : Flags) (cs : List Char) : Option (CharClass × List Char) :=
  match cs with
  | ':' :: rest =>
    let (negated, body) := match rest with
      | '^' :: body => (true, body)
      | _ => (false, rest)
    let name := body.takeWhile (· != ':')
    match body.dropWhile (· != ':') with
    | ':' :: ']' :: after =>
      (asciiClass? (String.ofList name)).map fun k =>
        (if negated then .compl (cased f k) else cased f k, after)
    | _ => none
  | _ => none

/-- The hyphens at the start of a set, and a bracket that closes nothing yet. -/
def classHead (f : Flags) (cs : List Char) : CharClass × List Char :=
  let hyphens := cs.takeWhile (· == '-')
  let rest := skipBlanks f (cs.dropWhile (· == '-'))
  if hyphens.isEmpty then
    match rest with
    | ']' :: rest => (cased f (one ']'), rest)
    | _ => (.none, rest)
  else (one '-', rest)

/-- The set up to its closing bracket. `left` is what an operator waits with. -/
def classBody (f : Flags) : (fuel : Nat) → (left : Option (SetOp × CharClass)) → CharClass →
    List Char → Option (CharClass × List Char)
  | 0, _, _, _ => none
  | fuel + 1, left, sofar, cs =>
    let joined : CharClass := match left with
      | some (op, a) => op.apply a sofar
      | none => sofar
    match skipBlanks f cs with
    | [] => none
    | ']' :: rest => some (joined, rest)
    | '[' :: rest =>
      match asciiItem? f rest with
      | some (k, rest) => classBody f fuel left (.union sofar k) rest
      | none => do
        let (k, rest) ← bracketed f fuel rest
        classBody f fuel left (.union sofar k) rest
    | '&' :: '&' :: rest => classBody f fuel (some (.inter, joined)) .none rest
    | '-' :: '-' :: rest => classBody f fuel (some (.diff, joined)) .none rest
    | '~' :: '~' :: rest => classBody f fuel (some (.either, joined)) .none rest
    | cs => do
      let (k, rest) ← classRange? f cs
      classBody f fuel left (.union sofar k) rest
where
  /-- A set after its opening bracket. -/
  bracketed (f : Flags) (fuel : Nat) (cs : List Char) : Option (CharClass × List Char) := do
    let cs := skipBlanks f cs
    let (negated, cs) := match cs with
      | '^' :: rest => (true, skipBlanks f rest)
      | _ => (false, cs)
    if negated && !f.unicode then none
    let (start, cs) := classHead f cs
    let (k, rest) ← match fuel with
      | 0 => none
      | fuel + 1 => classBody f fuel none start cs
    return (if negated then .compl k else k, rest)

/-! ## Expressions -/

def bounds? (f : Flags) (cs : List Char) : Option ((Nat × Option Nat) × List Char) := do
  let number (cs : List Char) : Option (Nat × List Char) :=
    let cs := skipBlanks f cs
    (digitsToNat? 10 (cs.takeWhile Char.isDigit)).map (·, skipBlanks f (cs.dropWhile Char.isDigit))
  let (least, rest) ← number cs
  if least ≥ Nat.pow 2 32 then none
  match rest with
  | '\x7d' :: rest => return ((least, some least), rest)
  | ',' :: rest =>
    match skipBlanks f rest with
    | '\x7d' :: rest => return ((least, none), rest)
    | rest =>
      let (most, rest) ← number rest
      match rest with
      | '\x7d' :: rest => if least ≤ most && most < Nat.pow 2 32 then return ((least, some most), rest) else none
      | _ => none
  | _ => none

/-- More parts than this are refused. -/
def sizeLimit : Nat := 100000

def repeated? (r : Regex) (least : Nat) (most : Option Nat) : Option Regex :=
  if (max least (most.getD 0) + 1) * (r.size + 2) > sizeLimit then none
  else
    let rest := match most with
      | some most => r.upTo (most - least)
      | none => .star r
    some (if least = 0 then rest else .seq (r.times least) rest)

/-- The signs for repetition after an expression. A question mark after them changes nothing here. -/
def quantified (f : Flags) : (fuel : Nat) → Regex → List Char → Option (Regex × List Char)
  | 0, _, _ => none
  | fuel + 1, r, cs =>
    let afterLazy (cs : List Char) : List Char :=
      match cs with
      | '?' :: rest => rest
      | _ => cs
    match skipBlanks f cs with
    | '*' :: rest => quantified f fuel (.star r) (afterLazy rest)
    | '+' :: rest => quantified f fuel (.seq r (.star r)) (afterLazy rest)
    | '?' :: rest => quantified f fuel (.alt r .nothing) (afterLazy rest)
    | '\x7b' :: rest => do
      let ((least, most), rest) ← bounds? f rest
      quantified f fuel (← repeated? r least most) (afterLazy rest)
    | cs => some (r, cs)

def literal (f : Flags) (c : Char) : Regex := .chars (cased f (one c))

def dot? (f : Flags) : Option Regex :=
  if !f.unicode then none
  else if f.dotAll then some (.chars (.compl .none))
  else if f.crlf then some (.chars (.compl (.union (one '\r') (one '\n'))))
  else some (.chars (.compl (one '\n')))

def startAnchor (f : Flags) : Assertion :=
  if !f.multiLine then .textStart else if f.crlf then .crlfLineStart else .lineStart

def endAnchor (f : Flags) : Assertion :=
  if !f.multiLine then .textEnd else if f.crlf then .crlfLineEnd else .lineEnd

def groupName? (cs : List Char) : Option (String × List Char) :=
  let name := cs.takeWhile (· != '>')
  let isStart (c : Char) : Bool := c == '_' || Text.isLetter c
  let isPart (c : Char) : Bool := isStart c || Text.isLetterOrNumber c || c == '.' || c == '[' || c == ']'
  match name, cs.dropWhile (· != '>') with
  | c :: more, _ :: rest => if isStart c && more.all isPart then some (String.ofList name, rest) else none
  | _, _ => none

/-- What the parsing of alternatives remembers: the switches and the names of groups so far. -/
structure Context where
  flags : Flags := {}
  names : List String := []

/-- How a parenthesis goes on. -/
inductive Opening where
  | group (inner : Context) (rest : List Char)
  | flags (f : Flags) (rest : List Char)

def opening? (x : Context) : List Char → Option Opening
  | '?' :: 'P' :: '<' :: rest => named rest
  | '?' :: '<' :: rest =>
    match rest with
    | '=' :: _ => none
    | '!' :: _ => none
    | _ => named rest
  | '?' :: rest => do
    let (f, seen, last, rest) ← switches x.flags [] true rest
    if last == ':' then return .group { x with flags := f } rest
    else if seen.isEmpty then none
    else return .flags f rest
  | rest => some (.group x rest)
where
  named (rest : List Char) : Option Opening := do
    let (name, rest) ← groupName? rest
    if x.names.contains name then none
    return .group { x with names := name :: x.names } rest

/-- Alternatives up to a closing parenthesis or the end. `done` are the alternatives before this
one, and `sofar` is what this one starts with. -/
def alternatives : (fuel : Nat) → Context → (done sofar : Regex) → List Char →
    Option (Regex × Context × List Char)
  | 0, _, _, _, _ => none
  | fuel + 1, x, done, sofar, cs =>
    let f := x.flags
    let goOn (r : Regex) (x : Context) (rest : List Char) : Option (Regex × Context × List Char) := do
      let (r, rest) ← quantified f (rest.length + 1) r rest
      alternatives fuel x done (sofar.seq r) rest
    match skipBlanks f cs with
    | [] => some (.alt done sofar, x, [])
    | ')' :: rest => some (.alt done sofar, x, ')' :: rest)
    | '|' :: rest => alternatives fuel x (.alt done sofar) .nothing rest
    | '(' :: rest => do
      match ← opening? x rest with
      | .flags f rest => alternatives fuel { x with flags := f } done sofar rest
      | .group inner rest =>
        match ← alternatives fuel inner .never .nothing rest with
        | (r, inner, ')' :: rest) => goOn r { x with names := inner.names } rest
        | _ => none
    | '[' :: rest => do
      let (k, rest) ← classBody.bracketed f (rest.length + 1) rest
      goOn (.chars k) x rest
    | '\\' :: rest => do
      match ← escape? f rest with
      | (.char c, rest) => goOn (literal f c) x rest
      | (.set k, rest) => goOn (.chars k) x rest
      | (.check a, rest) => goOn (.check a) x rest
    | '.' :: rest => do goOn (← dot? f) x rest
    | '^' :: rest => goOn (.check (startAnchor f)) x rest
    | '$' :: rest => goOn (.check (endAnchor f)) x rest
    | c :: rest => if "*+?\x7b".toList.contains c then none else goOn (literal f c) x rest

def ofText? (text : String) : Option Regex :=
  match alternatives (2 * text.length + 1) {} .never .nothing text.toList with
  | some (r, _, []) => some r
  | _ => none

end Regex
end Transclusion
