import Transclusion.Yaml.Lexer

/-!
# The tree of a document text

* `Node` : scalars, sequences and mappings with their tags, and aliases;
* `Tree` : a root node, and the anchored nodes by number;
* `Tree.ofTokens` : the one document of a token list.

Anchors are numbered by how many different names came before. A name used again gets a new
number, which another name may share; an alias means the node of its number that starts last.
-/

namespace Transclusion.Yaml

/-- A node with its tag, if it has one. -/
inductive Node where
  | scalar (tag : Option String) (style : Style) (text : String)
  | sequence (tag : Option String) (items : List Node)
  | mapping (tag : Option String) (entries : List (Node × Node))
  | alias (number : Nat)
  deriving Inhabited

namespace Node

def empty : Node := .scalar none .plain ""

mutual

/-- One for a scalar or alias, two for a collection besides what it holds. -/
def weight : Node → Nat
  | .sequence _ items => 2 + weightAll items
  | .mapping _ entries => 2 + weightEntries entries
  | _ => 1

def weightAll : List Node → Nat
  | [] => 0
  | n :: rest => weight n + weightAll rest

def weightEntries : List (Node × Node) → Nat
  | [] => 0
  | (k, v) :: rest => weight k + weight v + weightEntries rest

end

end Node

/-- An anchored node: its number, and how many anchored nodes start before it. -/
structure Anchored where
  number : Nat
  start : Nat
  node : Node

/-- A document: its root, and what its aliases mean. -/
structure Tree where
  root : Node
  anchored : List Anchored

def Tree.target? (t : Tree) (number : Nat) : Option Node :=
  ((t.anchored.filter (·.number == number)).foldl
    (fun best a => match best with
      | some b => if b.start < a.start then some a else best
      | none => some a) none).map (·.node)

/-! ## Building the tree -/

namespace Tree

/-- The tokens that are left, and what the anchors and tag handles stand for. -/
structure State where
  tokens : List Token
  names : List (String × Nat) := []
  starts : Nat := 0
  anchored : List Anchored := []
  handles : List (String × String) := []

abbrev Build := StateT State (Except YamlFault)

def peek : Build (Option Token) := return (← get).tokens.head?

def advance : Build Unit := modify fun s => { s with tokens := s.tokens.drop 1 }

/-- The next token is one of these, or there is none. -/
def nextIn (ts : List Token) : Build Bool := do
  match ← peek with
  | some t => return ts.contains t
  | none => return true

def anchorNumber (name : String) : Build (Nat × Nat) := do
  let s ← get
  let number := s.names.length
  let names := if s.names.any (·.1 == name) then
      s.names.map fun e => if e.1 == name then (name, number) else e
    else s.names ++ [(name, number)]
  set { s with names := names, starts := s.starts + 1 }
  return (number, s.starts)

def fullTag (handle suffix : String) : Build String := do
  if handle.isEmpty then return suffix
  let known := (← get).handles ++ [("!", "!"), ("!!", "tag:yaml.org,2002:")]
  match known.find? (·.1 == handle) with
  | some (_, head) => return head ++ suffix
  | none => throw .tag

def properties : Build (Option String × Option String) := do
  let anchor? : Build (Option String) := do
    match ← peek with
    | some (.anchor n) => advance; return some n
    | _ => return none
  let tag? : Build (Option String) := do
    match ← peek with
    | some (.tag h s) => advance; return some (← fullTag h s)
    | _ => return none
  match ← peek with
  | some (.anchor _) =>
    let a ← anchor?
    return (a, ← tag?)
  | some (.tag _ _) =>
    let t ← tag?
    return (← anchor?, t)
  | _ => return (none, none)

/-- The state in which a node's value starts: its anchor is numbered before what it holds. -/
def anchoring (anchor : Option String) (node : Build Node) : Build Node := do
  match anchor with
  | none => node
  | some name =>
    let (number, start) ← anchorNumber name
    let n ← node
    modify fun s => { s with anchored := ⟨number, start, n⟩ :: s.anchored }
    return n

mutual

/-- A node. In a block, block collections may come; `indentless` also allows entries without an
indentation of their own. -/
def node : Nat → (block indentless : Bool) → Build Node
  | 0, _, _ => throw .unfinished
  | fuel + 1, block, indentless => do
    match ← peek with
    | some (.alias name) =>
      advance
      match (← get).names.find? (·.1 == name) with
      | some (_, number) => return .alias number
      | none => throw .unknownAnchor
    | _ =>
      let (anchor, tag) ← properties
      match ← peek with
      | some .entry =>
        if indentless then anchoring anchor (.sequence tag <$> indentlessItems fuel)
        else if anchor.isSome || tag.isSome then anchoring anchor (return .scalar tag .plain "")
        else throw .unexpectedToken
      | some (.scalar style text) =>
        advance
        anchoring anchor (return .scalar tag style text)
      | some .flowSequence =>
        advance
        anchoring anchor (.sequence tag <$> flowItems fuel true)
      | some .flowMapping =>
        advance
        anchoring anchor (.mapping tag <$> flowEntries fuel true)
      | some .blockSequence =>
        if block then
          advance
          anchoring anchor (.sequence tag <$> blockItems fuel)
        else if anchor.isSome || tag.isSome then anchoring anchor (return .scalar tag .plain "")
        else throw .unexpectedToken
      | some .blockMapping =>
        if block then
          advance
          anchoring anchor (.mapping tag <$> blockEntries fuel)
        else if anchor.isSome || tag.isSome then anchoring anchor (return .scalar tag .plain "")
        else throw .unexpectedToken
      | _ =>
        if anchor.isSome || tag.isSome then anchoring anchor (return .scalar tag .plain "")
        else throw .unexpectedToken

/-- A node, or an empty scalar where one of the tokens `stops` comes next. -/
def nodeOrEmpty : Nat → (block indentless : Bool) → List Token → Build Node
  | 0, _, _, _ => throw .unfinished
  | fuel + 1, block, indentless, stops => do
    if ← nextIn stops then return .empty else node fuel block indentless

def blockItems : Nat → Build (List Node)
  | 0 => throw .unfinished
  | fuel + 1 => do
    match ← peek with
    | some .entry =>
      advance
      let item ← nodeOrEmpty fuel true false [.entry, .blockEnd]
      return item :: (← blockItems fuel)
    | some .blockEnd => advance; return []
    | _ => throw .unexpectedToken

/-- The items of a sequence that stands at the indentation of its mapping. -/
def indentlessItems : Nat → Build (List Node)
  | 0 => throw .unfinished
  | fuel + 1 => do
    match ← peek with
    | some .entry =>
      advance
      let item ← nodeOrEmpty fuel true false [.entry, .key, .value, .blockEnd]
      return item :: (← indentlessItems fuel)
    | _ => return []

def blockEntries : Nat → Build (List (Node × Node))
  | 0 => throw .unfinished
  | fuel + 1 => do
    match ← peek with
    | some .key =>
      advance
      let key ← nodeOrEmpty fuel true true [.key, .value, .blockEnd]
      let value ← blockValue fuel
      return (key, value) :: (← blockEntries fuel)
    | some .blockEnd => advance; return []
    | _ => throw .unexpectedToken

def blockValue : Nat → Build Node
  | 0 => throw .unfinished
  | fuel + 1 => do
    match ← peek with
    | some .value =>
      advance
      nodeOrEmpty fuel true true [.key, .value, .blockEnd]
    | _ => return .empty

def flowItems : Nat → (first : Bool) → Build (List Node)
  | 0, _ => throw .unfinished
  | fuel + 1, first => do
    match ← peek with
    | some .flowSequenceEnd => advance; return []
    | _ =>
      if !first then
        match ← peek with
        | some .comma => advance
        | _ => throw .unexpectedToken
      match ← peek with
      | some .flowSequenceEnd => advance; return []
      | some .key =>
        advance
        let entry ← flowPair fuel
        return .mapping none [entry] :: (← flowItems fuel false)
      | _ =>
        let item ← node fuel false false
        return item :: (← flowItems fuel false)

/-- Key and value of a mapping of one entry. A left-out key takes the next token with it. -/
def flowPair : Nat → Build (Node × Node)
  | 0 => throw .unfinished
  | fuel + 1 => do
    let key ← (do
      if ← nextIn [.value, .comma, .flowSequenceEnd] then
        advance
        return Node.empty
      else node fuel false false)
    match ← peek with
    | some .value =>
      advance
      return (key, ← nodeOrEmpty fuel false false [.comma, .flowSequenceEnd])
    | _ => return (key, .empty)

def flowEntries : Nat → (first : Bool) → Build (List (Node × Node))
  | 0, _ => throw .unfinished
  | fuel + 1, first => do
    match ← peek with
    | some .flowMappingEnd => advance; return []
    | _ =>
      if !first then
        match ← peek with
        | some .comma => advance
        | _ => throw .unexpectedToken
      match ← peek with
      | some .flowMappingEnd => advance; return []
      | some .key =>
        advance
        let key ← nodeOrEmpty fuel false false [.value, .comma, .flowMappingEnd]
        let value ← flowValue fuel
        return (key, value) :: (← flowEntries fuel false)
      | _ =>
        let key ← node fuel false false
        return (key, .empty) :: (← flowEntries fuel false)

def flowValue : Nat → Build Node
  | 0 => throw .unfinished
  | fuel + 1 => do
    match ← peek with
    | some .value =>
      advance
      nodeOrEmpty fuel false false [.comma, .flowMappingEnd]
    | _ => return .empty

end

/-- Directive lines before a document: at most one version, and each handle once. -/
def directives : Nat → (seenVersion : Bool) → Build Bool
  | 0, _ => throw .unfinished
  | fuel + 1, seenVersion => do
    match ← peek with
    | some (.version major minor) =>
      if seenVersion || major != 1 || (minor != 1 && minor != 2) then throw .directive
      advance
      let _ ← directives fuel true
      return true
    | some (.handle name head) =>
      if (← get).handles.any (·.1 == name) then throw .directive
      modify fun s => { s with handles := s.handles ++ [(name, head)] }
      advance
      let _ ← directives fuel seenVersion
      return true
    | _ => return seenVersion

/-- The root of the one document: with its start mark, or without. -/
def document (fuel : Nat) : Build (Option Node) := do
  if (← peek).isNone then return none
  let withLines ← directives fuel false
  let root ← (match ← peek with
    | some .documentStart => do
      advance
      match ← peek with
      | none => return Node.empty
      | some .documentEnd => return .empty
      | some .documentStart => return .empty
      | some (.version _ _) => return .empty
      | some (.handle _ _) => return .empty
      | some _ => node fuel true false
    | _ => if withLines then throw .unexpectedToken else node fuel true false)
  return some root

/-- Nothing but end marks is left. -/
def ending : List Token → Bool
  | [] => true
  | .documentEnd :: rest => ending rest
  | _ => false

/-- The one document of a token list, or `none` when there is nothing in it. -/
def ofTokens (tokens : List Token) : Except YamlFault (Option Tree) := do
  let (root, s) ← (document (4 * tokens.length + 8)).run { tokens := tokens }
  match root with
  | none => return none
  | some root =>
    if ending s.tokens then return some ⟨root, s.anchored⟩ else throw .severalDocuments

end Tree
end Transclusion.Yaml
