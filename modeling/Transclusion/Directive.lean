import Transclusion.Args
import Transclusion.Fault
import Transclusion.Text.Blank
import Transclusion.Text.Letter
import Transclusion.Yaml.Reading

/-!
# Include directives

* `Directive` : target, parameters, flattening and default of one include;
* `Directive.ofTarget`, `Directive.withPositional` and so on : a directive made step by step;
* `Directive.ofNode` : the directive that the payload of an include tag states;
* `Directive.toNode` : a directive as a tagged node.

A payload is a scalar (the target), a sequence (target and positional parameters) or a mapping
(the target under `urlpath` or `target`, `flatten`, `default`, and named parameters).
-/

namespace Transclusion

/-- One include. Its target is never blank. -/
structure Directive where
  target : String
  positional : List Value := []
  named : Entries := []
  flatten : Bool := false
  default : Option Value := none
  target_shows : Text.isAllBlank target = false

namespace Directive

def urlpathKey : String := "urlpath"
def targetKey : String := "target"
def flattenKey : String := "flatten"
def defaultKey : String := "default"

/-- The keys of the mapping form that are no parameters. -/
def reservedKeys : List String := [urlpathKey, targetKey, flattenKey, defaultKey]

def ofTarget (target : String) : Except Fault Directive :=
  if h : Text.isAllBlank target then .error (.invalidDirective .emptyTarget)
  else .ok { target := target, target_shows := by simpa using h }

def withPositional (d : Directive) (items : List Value) : Directive := { d with positional := items }

def withNamed (d : Directive) (es : Entries) : Directive := { d with named := es }

def withFlatten (d : Directive) (flatten : Bool) : Directive := { d with flatten := flatten }

def withDefault (d : Directive) (v : Value) : Directive := { d with default := some v }

/-- All parameters, as one call takes them. -/
def args (d : Directive) : Args := ⟨d.positional, d.named⟩

/-! ## Reading a payload -/

def targetText : Value → Except Fault String
  | .string s => .ok s
  | .number n => .ok n.text
  | .bool b => .ok (toString b)
  | .null => .error (.invalidDirective .nullTarget)
  | .sequence _ => .error (.invalidDirective .collectionTarget)
  | .mapping _ => .error (.invalidDirective .collectionTarget)
  | .tagged t _ => .error (.invalidDirective (.taggedTarget t))

/-- A boolean, or the text of one. -/
def flattenFlag (v : Value) : Except Fault Bool := do
  let read ← match v with
    | .string s =>
      match Value.ofYaml s with
      | .ok w => pure w
      | .error _ => throw (.config .flattenUnreadable)
    | other => pure other
  match read.truth? with
  | some b => return b
  | none => throw (.config (.flattenNotBoolean v))

/-- A letter or underscore, then letters, numbers and underscores. -/
def isIdentifier (s : String) : Bool :=
  match s.toList with
  | [] => false
  | c :: rest =>
    (c == '_' || Text.isLetter c) && rest.all fun c => c == '_' || Text.isLetterOrNumber c

/-- A key, tagged or not, is an identifier. -/
def isIdentifierKey (key : Value) : Bool := key.text?.any isIdentifier

def isReservedKey (key : Value) : Bool := key.text?.any reservedKeys.contains

def badKey? (es : Entries) : Option Value := (List.find? (fun e => !isIdentifierKey e.1) es).map (·.1)

/-- The target of the mapping form, under one of its two keys. -/
def mappingTarget (es : Entries) : Except Fault String :=
  match Entries.get? urlpathKey es, Entries.get? targetKey es with
  | some _, some _ => .error (.invalidDirective .twoTargets)
  | some v, none => targetText v
  | none, some v => targetText v
  | none, none => .error (.invalidDirective .noTargetKey)

def mappingFlatten (es : Entries) : Except Fault Bool :=
  match Entries.get? flattenKey es with
  | some v => flattenFlag v
  | none => .ok false

def ofMapping (es : Entries) : Except Fault Directive :=
  match badKey? es with
  | some key => .error (.invalidDirective (.keyNotIdentifier key))
  | none => do
    let d ← ofTarget (← mappingTarget es)
    let flatten ← mappingFlatten es
    return { d with
      flatten := flatten
      default := Entries.get? defaultKey es
      named := es.filter fun e => !isReservedKey e.1 }

def ofNode : Value → Except Fault Directive
  | .sequence [] => .error (.invalidDirective .emptySequence)
  | .sequence (first :: rest) => do
    let d ← ofTarget (← targetText first)
    return { d with positional := rest }
  | .mapping es => ofMapping es
  | scalar => do ofTarget (← targetText scalar)

/-! ## Writing a payload -/

/-- The payload of the mapping form is needed. -/
def needsMapping (d : Directive) : Bool := !d.named.isEmpty || d.flatten || d.default.isSome

/-- The payload of a directive, in the shortest of the three forms that holds it. The mapping form
has no place for positional parameters. -/
def payload (d : Directive) : Value :=
  if d.needsMapping then
    let es := Entries.extend [(.string urlpathKey, .string d.target)] d.named
    let es := if d.flatten then Entries.insert es (.string flattenKey) (.bool true) else es
    let es := match d.default with
      | some v => Entries.insert es (.string defaultKey) v
      | none => es
    .mapping es
  else if d.positional.isEmpty then .string d.target
  else .sequence (.string d.target :: d.positional)

def toNode (d : Directive) (tag : Tag) : Value := .tagged tag d.payload

/-! ## Equality -/

/-- Equality of directives, values being compared as values. -/
def same (a b : Directive) : Bool :=
  a.target == b.target && Value.sameAll a.positional b.positional
    && (Value.mapping a.named).same (.mapping b.named) && a.flatten == b.flatten
    && match a.default, b.default with
      | some v, some w => v.same w
      | none, none => true
      | _, _ => false

theorem ofTarget_eq_ok {target : String} {d : Directive} (h : ofTarget target = .ok d) :
    d.target = target := by
  unfold ofTarget at h
  split at h
  · cases h
  · cases h; rfl

end Directive
end Transclusion
