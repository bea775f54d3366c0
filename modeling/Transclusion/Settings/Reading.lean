import Transclusion.Settings.Basic
import Transclusion.Toml.Reading

/-!
# Settings files

* `Settings.ofText?` : the settings of a text; keys that are not known are refused;
* `Settings.load` : the settings of a file.

A table of settings may also be given as an array of its values, in the order of its keys.
-/

namespace Transclusion

namespace Toml

/-! ## Items of a type -/

def Item.text? : Item → Option String
  | .text s => some s
  | _ => none

def Item.bool? : Item → Option Bool
  | .bool b => some b
  | _ => none

def Item.word? : Item → Option Nat
  | .integer n => if 0 ≤ n && n < Nat.pow 2 64 then some n.toNat else none
  | _ => none

def Item.items? : Item → Option (List Item)
  | .array items => some items
  | .tables each => some (each.reverse.map (.table .headed))
  | _ => none

/-- A table that has no keys but these, or its values in the order of the keys. -/
def Item.record? (keys : List String) (i : Item) : Option Fields :=
  match i with
  | .table _ fields => if fields.all fun f => keys.contains f.1 then some fields else none
  | i => i.items?.map keys.zip

def Item.texts? : Item → Option (List (String × String))
  | .table _ fields => fields.mapM fun f => f.2.text?.map (f.1, ·)
  | _ => none

def Fields.required? {α : Type} (fs : Fields) (key : String) (decode : Item → Option α) : Option α :=
  (get? key fs).bind decode

/-- A key with the value that stands for it where it is missing. -/
def Fields.optional? {α : Type} (fs : Fields) (key : String) (decode : Item → Option α) (default : α) :
    Option α :=
  match get? key fs with
  | some i => decode i
  | none => some default

end Toml

namespace Settings

open Toml

def ruleOf? (i : Item) : Option FormatRule := do
  let fs ← i.record? ["pattern", "reader"]
  return ⟨← fs.required? "pattern" Item.text?, ← fs.required? "reader" Item.text?⟩

/-- Whether files are read by their names, and the rules for that. -/
def readersOf? (i : Item) : Option (Bool × List FormatRule) := do
  let fs ← i.record? ["enabled", "rules"]
  return (← fs.optional? "enabled" Item.bool? false,
    ← fs.optional? "rules" (fun i => i.items?.bind fun l => l.mapM ruleOf?) [])

/-- The timeout and the headers of requests. -/
def webOf? (i : Item) : Option (Option Nat × List (String × String)) := do
  let fs ← i.record? ["timeout_secs", "headers"]
  return (← fs.optional? "timeout_secs" (fun i => i.word?.map some) none,
    ← fs.optional? "headers" Item.texts? [])

def ofText? (text : String) : Option Settings := do
  let fs ← Item.record? ["tag", "base_dir", "autoload", "readers", "http"]
    (.table .headed (← Fields.ofText? text))
  let (byName, rules) ← fs.optional? "readers" readersOf? (false, [])
  let (timeout, headers) ← fs.optional? "http" webOf? (none, [])
  return { tag := ← fs.optional? "tag" (fun i => i.text?.map some) none,
           baseDir := ← fs.optional? "base_dir" (fun i => i.text?.map some) none,
           autoload := ← fs.optional? "autoload" (fun i => i.bool?.map some) none,
           byName, rules, timeout, headers := .ofList headers }

variable {m : Type → Type} [Monad m]

def contentOf (disk : Disk m) (path : String) : Run m String := do
  match ← (disk.openPath path : m (Except IoFault Content)) with
  | .error f => Run.raise (.ofIo "reading config file" path f)
  | .ok content =>
    match content.text? with
    | .error f => Run.raise (.ofIo "reading config file" path f)
    | .ok text => return text

def load (disk : Disk m) (path : String) : Run m Settings := do
  match ofText? (← contentOf disk path) with
  | some s => return s
  | none => Run.raise (.config (.file path))

end Settings
end Transclusion
