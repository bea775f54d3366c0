import Transclusion.Includer.Resolve
import Transclusion.Walk.Location

/-!
# Walking one include at a time

* `LazyWalk` : a tree together with the places that are still to be visited;
* `firstInclude` : the first include of a node, and what is to be visited after it;
* `LazyWalk.next` : resolve the next include in its place;
* `LazyWalk.steps` : several includes one after the other.

Nodes are visited in document order. Only sequences and mappings are entered; other tagged nodes
are not.
-/

namespace Transclusion

/-- An include that was resolved, and where it was. -/
structure ResolvedInclude where
  location : Location
  directive : Directive

/-- A tree with the places that are still to be visited, the next one first. -/
structure LazyWalk where
  root : Value
  pending : List Location
  /-- Nothing more will come. -/
  done : Bool := false

/-- An include at its place, and the places after it. -/
structure Sighting where
  location : Location
  payload : Value
  after : List Location

mutual

/-- The first include at or under a node that is at `here`. -/
def firstInclude (isInclude : Tag → Bool) (here : Location) : Value → Option Sighting
  | .tagged t payload => if isInclude t then some ⟨here, payload, []⟩ else none
  | .sequence items => firstInItems isInclude here 0 items
  | .mapping entries => firstInEntries isInclude here entries
  | _ => none

def firstInItems (isInclude : Tag → Bool) (here : Location) (i : Nat) :
    List Value → Option Sighting
  | [] => none
  | v :: rest =>
    match firstInclude isInclude (here.child (.index i)) v with
    | some s => some { s with after := s.after ++ (List.range' (i + 1) rest.length).map fun j => here.child (.index j) }
    | none => firstInItems isInclude here (i + 1) rest

def firstInEntries (isInclude : Tag → Bool) (here : Location) : Entries → Option Sighting
  | [] => none
  | (k, v) :: rest =>
    match firstInclude isInclude (here.child (.key k)) v with
    | some s => some { s with after := s.after ++ rest.map fun e => here.child (.key e.1) }
    | none => firstInEntries isInclude here rest

end

/-- The next include of a tree among the places that are to be visited. A place that is not in the
tree is a fault. -/
def nextInclude (isInclude : Tag → Bool) (root : Value) : List Location → Except Fault (Option Sighting)
  | [] => .ok none
  | l :: rest =>
    match root.at? l with
    | none => .error (.notMutable l.text)
    | some node =>
      match firstInclude isInclude l node with
      | some s => .ok (some { s with after := s.after ++ rest })
      | none => nextInclude isInclude root rest

namespace LazyWalk

variable {m : Type → Type} [Monad m]

/-- A walk that has not started. -/
def ofRoot (root : Value) : LazyWalk := ⟨root, [.root], false⟩

def finished (w : LazyWalk) : LazyWalk := { w with pending := [], done := true }

/-- Resolve the next include in its place. A failure ends the walk. -/
def next (I : Includer m) (nested : Bool) (w : LazyWalk) :
    m (LazyWalk × Option (Except Failure ResolvedInclude)) := do
  if w.done then return (w, none)
  match nextInclude I.isInclude w.root w.pending with
  | .error f => return (w.finished, some (.error (.fault f)))
  | .ok none => return (w.finished, none)
  | .ok (some s) =>
    match Directive.ofNode s.payload with
    | .error f => return (w.finished, some (.error (.fault f)))
    | .ok d =>
      match ← (I.resolve d).run with
      | .error e => return (w.finished, some (.error e))
      | .ok v =>
        let pending := if nested then s.location :: s.after else s.after
        return (⟨w.root.replaceAt s.location v, pending, false⟩, some (.ok ⟨s.location, d⟩))

/-- At most `n` steps, up to the first that gives nothing. -/
def steps (I : Includer m) (nested : Bool) :
    (n : Nat) → LazyWalk → m (LazyWalk × List (Except Failure ResolvedInclude))
  | 0, w => return (w, [])
  | n + 1, w => do
    match ← w.next I nested with
    | (w, none) => return (w, [])
    | (w, some item) =>
      let (w, items) ← w.steps I nested n
      return (w, item :: items)

end LazyWalk
end Transclusion
