import Transclusion.Value.Basic
import Transclusion.Yaml.Layout
import Transclusion.Yaml.Plain

/-!
# From a value to a document text

* `Yaml.ofText` : the node of a text, quoted where it would be read as something else;
* `Yaml.toNode` : the node of a value;
* `Value.toYaml` : the document text of a value.

Not every value has a text. A tag directly inside a tag has none, and neither has a mapping of one
entry, itself without a tag, whose key is tagged or is again a mapping of one entry.
-/

namespace Transclusion

namespace Yaml

def textStyle (s : String) : Style :=
  if s.toList.contains '\n' then .literal
  else if readsOtherwise s then .single
  else .plain

/-- The tag of a node: one mark before the bare name, unless that has one of its own. -/
def tagName (t : Tag) : String := if t.bare.toList.head? == some '!' then t.bare else t.text

/-- A mapping of one entry with this key cannot be written without a tag. -/
def isLoneKeyUnwritable : Value → Bool
  | .tagged _ _ => true
  | .mapping [_] => true
  | _ => false

mutual

def toNode (tag : Option String) : Value → Except YamlFault Node
  | .null => .ok (.scalar tag .plain "null")
  | .bool b => .ok (.scalar tag .plain (toString b))
  | .number n => .ok (.scalar tag .plain n.text)
  | .string s => .ok (.scalar tag (textStyle s) s)
  | .sequence items => do return .sequence tag (← toNodes items)
  | .mapping entries => do
    match tag, entries with
    | none, [(k, _)] => if isLoneKeyUnwritable k then throw .unwritableKey
    | _, _ => pure ()
    return .mapping tag (← toEntryNodes entries)
  | .tagged t v => if tag.isSome then .error .nestedTag else toNode (some (tagName t)) v

def toNodes : List Value → Except YamlFault (List Node)
  | [] => .ok []
  | v :: rest => do
    let n ← toNode none v
    return n :: (← toNodes rest)

def toEntryNodes : Entries → Except YamlFault (List (Node × Node))
  | [] => .ok []
  | (k, v) :: rest => do
    let key ← toNode none k
    let value ← toNode none v
    return (key, value) :: (← toEntryNodes rest)

end

end Yaml

def Value.toYaml (v : Value) : Except YamlFault String :=
  (Yaml.toNode none v).map Yaml.Node.text

end Transclusion
