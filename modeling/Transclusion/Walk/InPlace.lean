import Transclusion.Includer.Resolve

/-!
# Walking in place

* `Walked` : the tree that a walk leaves behind, and its failure if it had one;
* `replaceInPlace` : replace includes one after the other, up to the first failure;
* `Includer.walkInPlace` : resolve every include of a tree in its place.
-/

namespace Transclusion

structure Walked (α : Type) where
  left : α
  failure : Option Failure := none

/-- The same failure, with the tree put into a larger one. -/
def Walked.map {α β : Type} (f : α → β) (w : Walked α) : Walked β := ⟨f w.left, w.failure⟩

variable {m : Type → Type} [Monad m]

mutual

/-- Replace includes in document order. `handle` gets an include's tag and payload, and says what
is left in its place. After a failure all further nodes stay what they are. -/
def replaceInPlace (isInclude : Tag → Bool) (handle : Tag → Value → m (Walked Value)) :
    Value → m (Walked Value)
  | .tagged t v =>
    if isInclude t then handle t v
    else do return (← replaceInPlace isInclude handle v).map (.tagged t)
  | .sequence items => do return (← replaceItemsInPlace isInclude handle items).map .sequence
  | .mapping entries => do return (← replaceEntriesInPlace isInclude handle entries).map .mapping
  | leaf => return ⟨leaf, none⟩

def replaceItemsInPlace (isInclude : Tag → Bool) (handle : Tag → Value → m (Walked Value)) :
    List Value → m (Walked (List Value))
  | [] => return ⟨[], none⟩
  | v :: rest => do
    let w ← replaceInPlace isInclude handle v
    match w.failure with
    | some e => return ⟨w.left :: rest, some e⟩
    | none => return (← replaceItemsInPlace isInclude handle rest).map (w.left :: ·)

def replaceEntriesInPlace (isInclude : Tag → Bool) (handle : Tag → Value → m (Walked Value)) :
    Entries → m (Walked Entries)
  | [] => return ⟨[], none⟩
  | (k, v) :: rest => do
    let w ← replaceInPlace isInclude handle v
    match w.failure with
    | some e => return ⟨(k, w.left) :: rest, some e⟩
    | none => return (← replaceEntriesInPlace isInclude handle rest).map ((k, w.left) :: ·)

end

namespace Includer

/-- Resolve the includes of a tree in their places; `levels` bounds how often the walk goes on into
what an include brings in, the tree itself being the first level. -/
def walkInPlaceWithin (I : Includer m) (nested : Bool) : (levels : Nat) → Value → m (Walked Value)
  | 0, v => replaceInPlace I.isInclude (fun t payload => pure ⟨.tagged t payload, some .nesting⟩) v
  | levels + 1, v =>
    replaceInPlace I.isInclude (fun t payload => do
      match ← (do I.resolve (← Run.ofExcept (Directive.ofNode payload)) : Run m Value).run with
      | .error e => return ⟨.tagged t payload, some e⟩
      | .ok w => if nested then I.walkInPlaceWithin nested levels w else return ⟨w, none⟩) v

/-- Resolve the includes of a tree in their places. -/
def walkInPlace (I : Includer m) (nested : Bool) (v : Value) : m (Walked Value) :=
  I.walkInPlaceWithin nested (I.nesting + 1) v

end Includer
end Transclusion
