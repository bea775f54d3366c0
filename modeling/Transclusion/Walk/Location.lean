import Transclusion.Value.Describe
import Transclusion.Value.Entries

/-!
# Places in a tree

* `Segment`, `Location` : the way from the root of a tree to a node;
* `Location.text` : `$`, then `.key` and `[index]`;
* `Value.at?`, `Value.replaceAt` : the node at a place, and a tree with another node there.
-/

namespace Transclusion

/-- One step down a tree. -/
inductive Segment where
  | key (key : Value)
  | index (i : Nat)
  deriving Inhabited

structure Location where
  segments : List Segment := []
  deriving Inhabited

/-- A step as text. Keys that are no text, number or boolean are shown with their kind. -/
def Segment.text : Segment → String
  | key (.string s) => "." ++ s
  | key (.number n) => "." ++ n.text
  | key (.bool b) => "." ++ toString b
  | key other => "[" ++ other.describe ++ "]"
  | index i => "[" ++ toString i ++ "]"

namespace Location

def root : Location := {}

def child (l : Location) (s : Segment) : Location := ⟨l.segments ++ [s]⟩

def text (l : Location) : String := "$" ++ String.join (l.segments.map Segment.text)

end Location

/-- The first entry whose key is the same gets another value. -/
def Entries.replace (key value : Value) : Entries → Entries
  | [] => []
  | (k, v) :: rest => if key.same k then (k, value) :: rest else (k, v) :: replace key value rest

namespace Value

def child? : Value → Segment → Option Value
  | .mapping entries, .key key => Entries.find? key entries
  | .sequence items, .index i => items[i]?
  | _, _ => none

def replaceChild : Value → Segment → Value → Value
  | .mapping entries, .key key, v => .mapping (Entries.replace key v entries)
  | .sequence items, .index i, v => .sequence (items.set i v)
  | tree, _, _ => tree

def follow? (tree : Value) : List Segment → Option Value
  | [] => some tree
  | s :: rest => (tree.child? s).bind fun v => v.follow? rest

/-- The tree with another node at the end of a way down. -/
def replaceAlong (tree : Value) (new : Value) : List Segment → Value
  | [] => new
  | s :: rest =>
    match tree.child? s with
    | some v => tree.replaceChild s (v.replaceAlong new rest)
    | none => tree

def at? (tree : Value) (l : Location) : Option Value := tree.follow? l.segments

/-- The tree with another node at a place; without that place it stays what it is. -/
def replaceAt (tree : Value) (l : Location) (new : Value) : Value := tree.replaceAlong new l.segments

end Value
end Transclusion
