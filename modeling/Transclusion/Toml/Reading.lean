import Transclusion.Toml.Item
import Transclusion.Toml.Moment

/-!
# TOML texts

* `Toml.basicString?`, `Toml.literalString?` : the four kinds of text;
* `Toml.scalar?` : numbers, truth values, dates and times;
* `Toml.item?` : any value; `Toml.keyPath?` : a key with its dots;
* `Toml.Fields.ofText?` : the tables of a text; `Value.ofToml?` : its value.
-/

namespace Transclusion
namespace Toml

/-! ## Blanks, comments and line ends -/

def isBlank (c : Char) : Bool := c == ' ' || c == '\t'

def skipBlanks (cs : List Char) : List Char := cs.dropWhile isBlank

def isControl (c : Char) : Bool := (c.toNat < 0x20 && c != '\t') || c.toNat == 0x7F

/-- What follows a comment. Control characters are refused in it. -/
def skipComment (cs : List Char) : Option (List Char) :=
  let body := cs.takeWhile fun c => c != '\n'
  let line := if body.getLast? == some '\r' then body.dropLast else body
  if line.any isControl then none else some (cs.drop line.length)

def newline? : List Char → Option (List Char)
  | '\n' :: rest => some rest
  | '\r' :: '\n' :: rest => some rest
  | _ => none

/-- What follows blanks and perhaps a comment, up to the end of the line. -/
def endOfLine? (cs : List Char) : Option (List Char) := do
  let rest ← match skipBlanks cs with
    | '#' :: rest => skipComment rest
    | rest => some rest
  if rest.isEmpty then return [] else newline? rest

/-- What follows blanks, comments and line ends. -/
def skipSpace : (fuel : Nat) → List Char → Option (List Char)
  | 0, _ => none
  | fuel + 1, cs =>
    match skipBlanks cs with
    | '#' :: rest => do skipSpace fuel (← skipComment rest)
    | rest =>
      match newline? rest with
      | some after => skipSpace fuel after
      | none => some rest

def skipAll (cs : List Char) : Option (List Char) := skipSpace (cs.length + 1) cs

/-! ## Texts -/

def hexChar? (width : Nat) (cs : List Char) : Option (Char × List Char) := do
  let ds := cs.take width
  if ds.length ≠ width then none
  let n ← digitsToNat? 16 ds
  if n.isValidChar then return (Char.ofNat n, cs.drop width) else none

def escaped? : List Char → Option (Char × List Char)
  | 'b' :: rest => some (Char.ofNat 8, rest)
  | 't' :: rest => some ('\t', rest)
  | 'n' :: rest => some ('\n', rest)
  | 'f' :: rest => some (Char.ofNat 0xC, rest)
  | 'r' :: rest => some ('\r', rest)
  | 'e' :: rest => some (Char.ofNat 0x1B, rest)
  | '"' :: rest => some ('"', rest)
  | '\\' :: rest => some ('\\', rest)
  | 'x' :: rest => hexChar? 2 rest
  | 'u' :: rest => hexChar? 4 rest
  | 'U' :: rest => hexChar? 8 rest
  | _ => none

def basicBody : (fuel : Nat) → (done : List Char) → List Char → Option (String × List Char)
  | 0, _, _ => none
  | _ + 1, _, [] => none
  | fuel + 1, done, c :: rest =>
    if c == '"' then some (String.ofList done.reverse, rest)
    else if c == '\\' then
      match escaped? rest with
      | some (d, rest) => basicBody fuel (d :: done) rest
      | none => none
    else if isControl c then none
    else basicBody fuel (c :: done) rest

def literalBody (cs : List Char) : Option (String × List Char) :=
  let body := cs.takeWhile (· != '\'')
  match cs.dropWhile (· != '\'') with
  | _ :: rest => if body.any isControl then none else some (String.ofList body, rest)
  | [] => none

/-- The first line end of a text of several lines does not count. -/
def dropFirstNewline (cs : List Char) : List Char := (newline? cs).getD cs

/-- The end of a text of several lines: three quotes, before which two more belong to the text. -/
def closing? (quote : Char) (cs : List Char) : Option (List Char × List Char) :=
  let run := cs.takeWhile (· == quote)
  if run.length < 3 then none
  else
    let inside := min (run.length - 3) 2
    some (List.replicate inside quote, cs.drop (inside + 3))

/-- Blanks and line ends after a backslash at the end of a line. -/
def skipFolded (cs : List Char) : List Char := cs.dropWhile fun c => isBlank c || c == '\n' || c == '\r'

/-- A character of a text of several lines that stands for itself. -/
def isBlockChar (c : Char) (rest : List Char) : Bool :=
  !isControl c || c == '\n' || (c == '\r' && rest.head? == some '\n')

/-- A text of several lines up to its quotes. -/
def blockBody : (fuel : Nat) → (done : List Char) → List Char → Option (String × List Char)
  | 0, _, _ => none
  | _ + 1, _, [] => none
  | fuel + 1, done, c :: rest =>
    match closing? '"' (c :: rest) with
    | some (more, rest) => some (String.ofList (done.reverse ++ more), rest)
    | none =>
      if c == '\\' then
        match newline? (skipBlanks rest) with
        | some after => blockBody fuel done (skipFolded after)
        | none =>
          match escaped? rest with
          | some (d, rest) => blockBody fuel (d :: done) rest
          | none => none
      else if isBlockChar c rest then blockBody fuel (c :: done) rest
      else none

/-- A text of several lines without escapes, up to its apostrophes. -/
def rawBlockBody (done : List Char) : List Char → Option (String × List Char)
  | [] => none
  | c :: rest =>
    match closing? '\'' (c :: rest) with
    | some (more, rest) => some (String.ofList (done.reverse ++ more), rest)
    | none => if isBlockChar c rest then rawBlockBody (c :: done) rest else none

/-- A text in quotes or apostrophes, on one line or on several. -/
def text? : List Char → Option (String × List Char)
  | '"' :: '"' :: '"' :: rest => blockBody (rest.length + 1) [] (dropFirstNewline rest)
  | '\'' :: '\'' :: '\'' :: rest => rawBlockBody [] (dropFirstNewline rest)
  | '"' :: rest => basicBody (rest.length + 1) [] rest
  | '\'' :: rest => literalBody rest
  | _ => none

/-! ## Keys -/

def isBareChar (c : Char) : Bool := c.isAlphanum || c == '_' || c == '-'

def key? : List Char → Option (String × List Char)
  | '"' :: rest => basicBody (rest.length + 1) [] rest
  | '\'' :: rest => literalBody rest
  | cs =>
    let bare := cs.takeWhile isBareChar
    if bare.isEmpty then none else some (String.ofList bare, cs.dropWhile isBareChar)

/-- Keys with dots between them: those before the last, and the last. -/
def keyPath? : (fuel : Nat) → List Char → Option ((List String × String) × List Char)
  | 0, _ => none
  | fuel + 1, cs => do
    let (k, rest) ← key? (skipBlanks cs)
    match skipBlanks rest with
    | '.' :: rest =>
      let ((before, last), rest) ← keyPath? fuel rest
      return ((k :: before, last), rest)
    | rest => return (([], k), rest)

/-! ## Numbers and words -/

/-- The digits of a number, without the underscores between them. -/
def withoutUnderscores? (isDigit : Char → Bool) : List Char → Option (List Char)
  | [] => none
  | [c] => if isDigit c then some [c] else none
  | c :: '_' :: rest => if isDigit c then (withoutUnderscores? isDigit rest).map (c :: ·) else none
  | c :: rest => if isDigit c then (withoutUnderscores? isDigit rest).map (c :: ·) else none

/-- A whole number in decimal digits, without zeros in front. -/
def whole? (cs : List Char) : Option (List Char) := do
  let ds ← withoutUnderscores? Char.isDigit cs
  if ds.head? == some '0' && ds.length > 1 then none else return ds

def based? (base : Nat) (cs : List Char) : Option Int := do
  let isDigit (c : Char) : Bool := (digitValue? base c).isSome
  return ((← digitsToNat? base (← withoutUnderscores? isDigit cs) : Nat) : Int)

/-- A decimal number with a point or an exponent, its sign left out. -/
def float? (minus : Bool) (cs : List Char) : Option Binary64 := do
  let isMark (c : Char) : Bool := c == '.' || c == 'e' || c == 'E'
  let whole ← whole? (cs.takeWhile fun c => !isMark c)
  let rest := cs.dropWhile fun c => !isMark c
  let (fraction, rest) ← match rest with
    | '.' :: r => do
      let ds ← withoutUnderscores? Char.isDigit (r.takeWhile fun c => !isMark c)
      some (ds, r.dropWhile fun c => !isMark c)
    | r => some ([], r)
  let power ← match rest with
    | [] => some (0 : Int)
    | '.' :: _ => none
    | _ :: r =>
      let (neg, body) := match r with
        | '-' :: b => (true, b)
        | '+' :: b => (false, b)
        | _ => (false, r)
      do
        let n ← digitsToNat? 10 (← withoutUnderscores? Char.isDigit body)
        some (if neg then -(n : Int) else n)
  let digits ← digitsToNat? 10 (whole ++ fraction)
  let x := Binary64.ofDecimal minus digits (power - fraction.length)
  if x.isInfinite then none else return x

def unsigned? (minus : Bool) (cs : List Char) : Option Item :=
  match cs with
  | ['i', 'n', 'f'] => some (.float (.infinity minus))
  | ['n', 'a', 'n'] => some (.float .nan)
  | _ =>
    match whole? cs with
    | some ds => (digitsToNat? 10 ds).map fun n => .integer (if minus then -(n : Int) else n)
    | none => (float? minus cs).map .float

def word? (cs : List Char) : Option Item :=
  match cs with
  | ['t', 'r', 'u', 'e'] => some (.bool true)
  | ['f', 'a', 'l', 's', 'e'] => some (.bool false)
  | '0' :: 'x' :: ds => (based? 16 ds).map .integer
  | '0' :: 'o' :: ds => (based? 8 ds).map .integer
  | '0' :: 'b' :: ds => (based? 2 ds).map .integer
  | '-' :: ds => unsigned? true ds
  | '+' :: ds => unsigned? false ds
  | _ => unsigned? false cs

/-- A word ends at a blank, a line end, or a character with a meaning in lists. -/
def isWordChar (c : Char) : Bool :=
  !(isBlank c || c == '\n' || c == '\r' || c == ',' || c == ']' || c == '\x7d' || c == '#' || c == '=')

def scalar? (cs : List Char) : Option (Item × List Char) :=
  if startsMoment cs then (moment? cs).map fun (m, rest) => (.moment m, rest)
  else
    (word? (cs.takeWhile isWordChar)).map (·, cs.dropWhile isWordChar)

/-! ## Values -/

/-- How deep arrays and tables in braces may be nested. -/
def maxDepth : Nat := 80

mutual

/-- Any value, with at most `depth` brackets and braces inside one another. -/
def item? : (fuel depth : Nat) → List Char → Option (Item × List Char)
  | 0, _, _ => none
  | fuel + 1, depth, cs =>
    match cs, depth with
    | '[' :: _, 0 => none
    | '\x7b' :: _, 0 => none
    | '[' :: rest, depth + 1 => items? fuel depth [] rest
    | '\x7b' :: rest, depth + 1 => inlineTable? fuel depth [] rest
    | '"' :: rest, _ => (text? ('"' :: rest)).map fun (s, rest) => (.text s, rest)
    | '\'' :: rest, _ => (text? ('\'' :: rest)).map fun (s, rest) => (.text s, rest)
    | cs, _ => scalar? cs

/-- The items of an array up to its bracket; a comma may follow the last. -/
def items? : (fuel depth : Nat) → (done : List Item) → List Char → Option (Item × List Char)
  | 0, _, _, _ => none
  | fuel + 1, depth, done, cs => do
    match ← skipAll cs with
    | ']' :: rest => return (.array done.reverse, rest)
    | cs =>
      let (i, rest) ← item? fuel depth cs
      match ← skipAll rest with
      | ',' :: rest => items? fuel depth (i :: done) rest
      | ']' :: rest => return (.array (i :: done).reverse, rest)
      | _ => none

/-- The fields of a table up to its brace; a comma may follow the last. -/
def inlineTable? : (fuel depth : Nat) → (done : Fields) → List Char → Option (Item × List Char)
  | 0, _, _, _ => none
  | fuel + 1, depth, done, cs => do
    match ← skipAll cs with
    | '\x7d' :: rest => return (.table .inline done, rest)
    | cs =>
      let ((path, key), rest) ← keyPath? (cs.length + 1) cs
      match rest with
      | '=' :: rest =>
        let (i, rest) ← item? fuel depth (skipBlanks rest)
        let fields ← Fields.assign path key i done
        match ← skipAll rest with
        | ',' :: rest => inlineTable? fuel depth fields rest
        | '\x7d' :: rest => return (.table .inline fields, rest)
        | _ => none
      | _ => none

end

/-! ## Documents -/

/-- The tables after further lines; `here` is the path of the header above them. -/
def addLines : (fuel : Nat) → (here : List String) → Fields → List Char → Option Fields
  | 0, _, _, _ => none
  | fuel + 1, here, fs, cs => do
    match ← skipAll cs with
    | [] => return fs
    | '[' :: '[' :: rest =>
      let ((path, key), rest) ← keyPath? (rest.length + 1) rest
      match rest with
      | ']' :: ']' :: rest =>
        addLines fuel (path ++ [key]) (← Fields.openNext path key fs) (← endOfLine? rest)
      | _ => none
    | '[' :: rest =>
      let ((path, key), rest) ← keyPath? (rest.length + 1) rest
      match rest with
      | ']' :: rest => addLines fuel (path ++ [key]) (← Fields.openTable path key fs) (← endOfLine? rest)
      | _ => none
    | cs =>
      let ((path, key), rest) ← keyPath? (cs.length + 1) cs
      match rest with
      | '=' :: rest =>
        let (i, rest) ← item? (2 * rest.length + 2) maxDepth (skipBlanks rest)
        let fs ← Fields.within false (Fields.assign path key i) here fs
        addLines fuel here fs (← endOfLine? rest)
      | _ => none

def Fields.ofText? (text : String) : Option Fields :=
  let cs := text.toList
  let cs := if cs.head? == some (Char.ofNat 0xFEFF) then cs.drop 1 else cs
  addLines (cs.length + 1) [] [] cs

end Toml

def Value.ofToml? (text : String) : Option Value := do
  (Toml.Item.table .headed (← Toml.Fields.ofText? text)).toValue?

end Transclusion
