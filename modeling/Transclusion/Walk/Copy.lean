import Transclusion.Includer.Resolve

/-!
# Walking a copy

* `replaceIncludes` : a copy of a tree in which `handle` has replaced every include;
* `Includer.walk` : a copy in which every include is resolved.

Keys and the payloads of includes are left alone. A nested walk goes on into what an include
brings in.
-/

namespace Transclusion

variable {m : Type → Type} [Monad m]

mutual

/-- A copy of a tree in which `handle` has replaced the payload of every include. -/
def replaceIncludes (isInclude : Tag → Bool) (handle : Value → Run m Value) : Value → Run m Value
  | .tagged t v =>
    if isInclude t then handle v
    else do return .tagged t (← replaceIncludes isInclude handle v)
  | .sequence items => do return .sequence (← replaceInItems isInclude handle items)
  | .mapping entries => do return .mapping (← replaceInEntries isInclude handle entries)
  | .null => return .null
  | .bool b => return .bool b
  | .number n => return .number n
  | .string s => return .string s

def replaceInItems (isInclude : Tag → Bool) (handle : Value → Run m Value) :
    List Value → Run m (List Value)
  | [] => return []
  | v :: rest => do
    let w ← replaceIncludes isInclude handle v
    return w :: (← replaceInItems isInclude handle rest)

def replaceInEntries (isInclude : Tag → Bool) (handle : Value → Run m Value) :
    Entries → Run m Entries
  | [] => return []
  | (k, v) :: rest => do
    let w ← replaceIncludes isInclude handle v
    return (k, w) :: (← replaceInEntries isInclude handle rest)

end

namespace Includer

/-- A copy of a tree with its includes resolved; `levels` bounds how often the walk goes on into
what an include brings in, the tree itself being the first level. -/
def walkWithin (I : Includer m) (nested : Bool) : (levels : Nat) → Value → Run m Value
  | 0, v => replaceIncludes I.isInclude (fun _ => throw .nesting) v
  | levels + 1, v =>
    replaceIncludes I.isInclude (fun payload => do
      let w ← I.resolve (← Run.ofExcept (Directive.ofNode payload))
      if nested then I.walkWithin nested levels w else return w) v

/-- A copy of a tree with its includes resolved. -/
def walk (I : Includer m) (nested : Bool) (v : Value) : Run m Value :=
  I.walkWithin nested (I.nesting + 1) v

end Includer
end Transclusion
