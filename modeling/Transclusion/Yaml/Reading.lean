import Transclusion.Value.Entries
import Transclusion.Yaml.Node
import Transclusion.Yaml.Plain

/-!
# From a document text to a value

* `Yaml.scalarValue` : a scalar under its tag;
* `Yaml.ofTree` : the value of a tree, aliases replaced by what they mean;
* `Value.ofYaml` : the value of a document text.
-/

namespace Transclusion

namespace Yaml

def maxDepth : Nat := 128

/-- The tag that a value keeps: one that starts with a mark, which is left out. -/
def keptTag? (tag : Option String) : Option Tag :=
  match tag.map String.toList with
  | some ('!' :: rest) => some ⟨if rest.isEmpty then "!" else String.ofList rest⟩
  | _ => none

/-- The head of the tags that name the types of the core schema. -/
def coreTag (name : String) : String := "tag:yaml.org,2002:" ++ name

def untaggedScalar (style : Style) (text : String) : Except YamlFault Value :=
  if style == .plain then ofPlain text else .ok (.string text)

/-- A scalar under its tag: the tags of the core schema force the type. -/
def scalarValue (tag : Option String) (style : Style) (text : String) : Except YamlFault Value :=
  match keptTag? tag with
  | some t => (untaggedScalar style text).map (.tagged t)
  | none =>
    match tag with
    | none => untaggedScalar style text
    | some name =>
      if name == coreTag "bool" then
        match truth? text with
        | some b => .ok (.bool b)
        | none => .error .forcedScalar
      else if name == coreTag "int" then
        match integral text.toList with
        | .number n => .ok (.number (.int n))
        | _ => .error .forcedScalar
      else if name == coreTag "float" then
        match float? text with
        | some x => .ok (.number (.float x))
        | none => .error .forcedScalar
      else if name == coreTag "null" then
        if isNull text then .ok .null else .error .forcedScalar
      else .ok (.string text)

/-- The work that is left: aliases may be followed only so many times. -/
abbrev Compose := StateT Nat (Except YamlFault)

/-- A node in a collection: scalars at once, an alias through what it means, and collections with
`collect`. -/
def item (tree : Tree) (collect : Node → Compose Value) : Node → Compose Value
  | .scalar tag style text => liftM (scalarValue tag style text)
  | .alias number => do
    match ← get with
    | 0 => throw .repetition
    | left + 1 =>
      set left
      match tree.target? number with
      | some (.scalar tag style text) => liftM (scalarValue tag style text)
      | some n => collect n
      | none => throw .unknownAnchor
  | n => collect n

def addEntries (read : Node → Compose Value) : Entries → List (Node × Node) → Compose Entries
  | es, [] => return es
  | es, (k, v) :: rest => do
    let key ← read k
    if Entries.hasKey key es then throw .duplicateKey
    let value ← read v
    addEntries read (es ++ [(key, value)]) rest

/-- A collection at a depth from which `left` levels are allowed. -/
def collection (tree : Tree) : (left : Nat) → Node → Compose Value
  | 0, _ => throw .depth
  | left + 1, n => do
    let wrap (tag : Option String) (v : Value) : Value :=
      match keptTag? tag with
      | some t => .tagged t v
      | none => v
    match n with
    | .sequence tag items =>
      return wrap tag (.sequence (← items.mapM (item tree (collection tree left))))
    | .mapping tag entries =>
      return wrap tag (.mapping (← addEntries (item tree (collection tree left)) [] entries))
    | other => item tree (fun _ => throw .unexpectedToken) other

def ofTree (tree : Tree) : Except YamlFault Value :=
  (item tree (collection tree maxDepth) tree.root).run' (tree.root.weight * 100)

end Yaml

namespace Value

/-- The value of a document text; an empty text is null. -/
def ofYaml (text : String) : Except YamlFault Value := do
  match ← Yaml.Tree.ofTokens (← Yaml.Token.ofText text) with
  | none => return .null
  | some tree => Yaml.ofTree tree

def sequenceOfYaml (text : String) : Except YamlFault (List Value) := do
  match ← ofYaml text with
  | .sequence items => return items
  | _ => throw .notSequence

def mappingOfYaml (text : String) : Except YamlFault Entries := do
  match ← ofYaml text with
  | .mapping entries => return entries
  | _ => throw .notMapping

end Value
end Transclusion
