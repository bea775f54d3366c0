import Transclusion.Value.Entries

/-!
# TOML tables

* `Toml.Item` : what a key stands for; `Toml.Fields` : the keys of a table;
* `Fields.within` : change the table at the end of a path, making tables on the way;
* `Fields.openTable`, `Fields.openNext`, `Fields.assign` : the three things that a line can say;
* `Item.toValue` : the value of an item, tables sorted by key.
-/

namespace Transclusion
namespace Toml

/-- How a table came to be, which decides what may still be added to it. -/
inductive TableKind where
  /-- On the way to a table that has a header. -/
  | implied
  /-- On the way to a dotted key. -/
  | dotted
  /-- By a header of its own. -/
  | headed
  /-- Between braces. -/
  | inline
  deriving DecidableEq

inductive Item where
  | text (s : String)
  | integer (n : Int)
  | float (x : Binary64)
  | bool (b : Bool)
  /-- A date, a time or both, in normal form. -/
  | moment (written : String)
  | array (items : List Item)
  | table (kind : TableKind) (fields : List (String × Item))
  /-- Tables with headers in double brackets, the newest first. -/
  | tables (each : List (List (String × Item)))
  deriving Inhabited

abbrev Fields := List (String × Item)

namespace Fields

def get? (key : String) (fs : Fields) : Option Item := (fs.find? (·.1 == key)).map (·.2)

/-- A key that is there already keeps its place. -/
def set (key : String) (item : Item) : Fields → Fields
  | [] => [(key, item)]
  | (k, i) :: rest => if k = key then (k, item) :: rest else (k, i) :: set key item rest

/-- Change the table at the end of a path. Tables that are missing on the way are made. A path of
dotted keys enters no table with a header of its own, and no path enters a table in braces. -/
def within (dotted : Bool) (change : Fields → Option Fields) : List String → Fields → Option Fields
  | [], fs => change fs
  | key :: rest, fs => do
    match get? key fs with
    | none =>
      return fs ++ [(key, .table (if dotted then .dotted else .implied) (← within dotted change rest []))]
    | some (.table kind inner) =>
      if kind = .inline || (dotted && kind = .headed) then none
      return set key (.table kind (← within dotted change rest inner)) fs
    | some (.tables (last :: before)) =>
      return set key (.tables ((← within dotted change rest last) :: before)) fs
    | some _ => none

/-- Give a key its value, at the end of a path of dotted keys. -/
def assign (path : List String) (key : String) (item : Item) (fs : Fields) : Option Fields :=
  within true (fun inner => if (get? key inner).isSome then none else some (inner ++ [(key, item)])) path fs

/-- A header: a new table, or one that so far was only on the way to another. -/
def openTable (path : List String) (key : String) (fs : Fields) : Option Fields :=
  within false (fun inner =>
    match get? key inner with
    | none => some (inner ++ [(key, .table .headed [])])
    | some (.table .implied deeper) => some (set key (.table .headed deeper) inner)
    | some _ => none) path fs

/-- A header in double brackets: one more table. -/
def openNext (path : List String) (key : String) (fs : Fields) : Option Fields :=
  within false (fun inner =>
    match get? key inner with
    | none => some (inner ++ [(key, .tables [[]])])
    | some (.tables each) => some (set key (.tables ([] :: each)) inner)
    | some _ => none) path fs

end Fields

/-! ## Values -/

/-- Integers of a value fit 64 bits with a sign. -/
def fitsInteger (n : Int) : Bool := -(Nat.pow 2 63) ≤ n && n < Nat.pow 2 63

def sorted (es : List (String × Value)) : Entries :=
  Entries.ofPairs ((es.mergeSort fun a b => a.1 ≤ b.1).map fun e => (.string e.1, e.2))

mutual

def Item.toValue? : Item → Option Value
  | .text s => some (.string s)
  | .integer n => if fitsInteger n then some (.number (.int n)) else none
  | .float x => some (.number (.float x))
  | .bool b => some (.bool b)
  | .moment written => some (.string written)
  | .array items => (values? items).map .sequence
  | .table _ fields => (entries? fields).map fun es => .mapping (sorted es)
  | .tables each => (tableValues? each).map fun l => .sequence l.reverse

def values? : List Item → Option (List Value)
  | [] => some []
  | i :: rest => do return (← i.toValue?) :: (← values? rest)

def entries? : List (String × Item) → Option (List (String × Value))
  | [] => some []
  | (k, i) :: rest => do return (k, ← i.toValue?) :: (← entries? rest)

def tableValues? : List (List (String × Item)) → Option (List Value)
  | [] => some []
  | t :: rest => do return .mapping (sorted (← entries? t)) :: (← tableValues? rest)

end

end Toml
end Transclusion
