import Transclusion.Fault
import Transclusion.Text.Blank
import Transclusion.Text.Lines
import Transclusion.Text.Lower
import Transclusion.Value.Entries

/-!
# INI texts

* `Ini.Line` : what a line is; `Ini.Line.ofText` : by its first characters;
* `Ini.Fields` : keys with their values; `Ini.Document` : the sections read so far;
* `Value.ofIni` : a mapping of sections to mappings.

Keys are in lower case, and `=` and `:` both end a key. An indented line goes on with the value
above it. What the section `DEFAULT` sets is part of every other section that does not set it.
-/

namespace Transclusion
namespace Ini

/-! ## Lines -/

/-- The name of the section whose entries all others have. -/
def defaultSection : String := "DEFAULT"

/-- What a line is when it does not go on with the line above. -/
inductive Line where
  | header (name : String)
  | entry (key value : String)
  /-- Neither: there is no sign that ends a key. -/
  | other
  deriving DecidableEq

/-- Blank lines and comments mean nothing. -/
def isInsignificant (trimmed : List Char) : Bool :=
  match trimmed with
  | [] => true
  | c :: _ => c == '#' || c == ';'

def isIndented (raw : List Char) : Bool := raw.head? == some ' ' || raw.head? == some '\t'

def bracketed? (trimmed : List Char) : Option (List Char) :=
  match trimmed with
  | '[' :: rest => if rest.getLast? == some ']' then some rest.dropLast else none
  | _ => none

def endsKey (c : Char) : Bool := c == '=' || c == ':'

/-- What a line is, without the blanks at its ends. -/
def Line.ofText (trimmed : List Char) : Line :=
  match bracketed? trimmed with
  | some name => .header (String.ofList (Text.trimChars name))
  | none =>
    match trimmed.dropWhile fun c => !endsKey c with
    | [] => .other
    | _ :: value =>
      let key := Text.trimChars (trimmed.takeWhile fun c => !endsKey c)
      .entry (Text.toLower (String.ofList key)) (String.ofList (Text.trimChars value))

/-! ## Sections -/

abbrev Fields := List (String × String)

namespace Fields

/-- A key that is there already keeps its place. -/
def set (key value : String) : Fields → Fields
  | [] => [(key, value)]
  | (k, v) :: rest => if k = key then (k, value) :: rest else (k, v) :: set key value rest

/-- The last of the keys gets a further line. -/
def extendLast (line : String) : Fields → Fields
  | [] => []
  | [(k, v)] => [(k, v ++ "\n" ++ line)]
  | f :: rest => f :: extendLast line rest

def hasKey (key : String) (fs : Fields) : Bool := fs.any (·.1 == key)

/-- The fields of a section, then those of the default section that it does not set. -/
def withDefaults (fs defaults : Fields) : Fields := fs ++ defaults.filter fun d => !hasKey d.1 fs

def toEntries (fs : Fields) : Entries := Entries.ofPairs (fs.map fun f => (.string f.1, .string f.2))

end Fields

structure Document where
  defaults : Fields := []
  /-- The other sections, the newest first. -/
  sections : List (String × Fields) := []
  /-- The section that is open is the default one. -/
  inDefault : Bool := false

namespace Document

def current? (d : Document) : Option Fields :=
  if d.inDefault then some d.defaults else (d.sections.head?).map (·.2)

def setCurrent (d : Document) (fs : Fields) : Document :=
  if d.inDefault then { d with defaults := fs }
  else match d.sections with
    | [] => d
    | (name, _) :: rest => { d with sections := (name, fs) :: rest }

/-- Open a section. A name that comes again opens a section of its own, the default one apart. -/
def openSection (d : Document) (name : String) : Document :=
  if name = defaultSection then { d with inDefault := true }
  else { d with inDefault := false, sections := (name, []) :: d.sections }

def addLine (d : Document) (number : Nat) (raw : List Char) : Except IniFault Document :=
  let trimmed := Text.trimChars raw
  if isInsignificant trimmed then .ok d
  else
    let fields := d.current?
    if isIndented raw && fields.any (!·.isEmpty) then
      .ok (d.setCurrent (Fields.extendLast (String.ofList trimmed) (fields.getD [])))
    else
      match Line.ofText trimmed with
      | .header name => .ok (d.openSection name)
      | .other => .error (.noSeparator number (String.ofList trimmed))
      | .entry key value =>
        match fields with
        | none => .error (.noSection number)
        | some fs => .ok (d.setCurrent (Fields.set key value fs))

/-- The document after further lines, the first of which has a number. -/
def addLines (d : Document) (number : Nat) : List (List Char) → Except IniFault Document
  | [] => .ok d
  | raw :: rest => do
    let d ← d.addLine number raw
    d.addLines (number + 1) rest

/-- A mapping of sections. Of two sections with one name the last counts. -/
def toEntries (d : Document) : Entries :=
  Entries.ofPairs (d.sections.reverse.map fun s =>
    (.string s.1, .mapping (s.2.withDefaults d.defaults).toEntries))

end Document

def Document.ofText (text : String) : Except IniFault Document :=
  ({} : Document).addLines 1 (Text.lines text.toList)

end Ini

def Value.ofIni (text : String) : Except IniFault Value :=
  (Ini.Document.ofText text).map fun d => .mapping d.toEntries

end Transclusion
