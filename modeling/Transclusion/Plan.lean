import Transclusion.Args
import Transclusion.Fault
import Transclusion.Decimal.Reading
import Transclusion.Text.Blank

/-!
# Parameters of a wildcard include

* `depth` : a limit given as a number or as its text;
* `Listing` : how a directory is listed; `Opening` : how each match is opened;
* `Plan.ofParams` : both, from the parameters of an include.

One positional parameter is for the listing, a second for the opening; without any, the named
ones `glob` and `open` are.
-/

namespace Transclusion

def depthKey : String := "maxdepth"

def wordOfText? (cs : List Char) : Option Nat :=
  (natural? 10 cs).bind fun n => if n < Nat.pow 2 64 then some n else none

/-- A depth limit; null is no limit. -/
def depth (v : Value) : Except Fault (Option Nat) :=
  match v with
  | .null => .ok none
  | .number n =>
    match n.natural? with
    | some d => .ok (some d)
    | none => .error (.config (.depthNegative n))
  | .string s =>
    match wordOfText? (Text.trimChars s.toList) with
    | some d => .ok (some d)
    | none => .error (.config (.depthText s))
  | other => .error (.config (.depthShape other))

def depthValue : Option Nat → Value
  | some n => .ofNat n
  | none => .null

/-! ## Listing -/

inductive Listing where
  | standard
  | keyword (named : Entries)
  | positional (items : List Value)
  /-- A depth alone; a scalar that is no depth sets no limit. -/
  | limit (depth : Option Nat)

namespace Listing

/-- Replace the depth among named options by the number it means. -/
def withDepth (named : Entries) : Except Fault Entries :=
  match Entries.get? depthKey named with
  | none => .ok named
  | some v => do
    let d ← depth v
    return Entries.modify depthKey (fun _ => depthValue d) named

/-- How to list, by the shape of the parameter. -/
def ofValue : Option Value → Except Fault Listing
  | none => .ok .standard
  | some .null => .ok .standard
  | some (.mapping named) => do return .keyword (← withDepth named)
  | some (.sequence []) => .ok (.positional [])
  | some (.sequence (first :: rest)) => do return .positional (depthValue (← depth first) :: rest)
  | some (.tagged _ _) => .error (.config .globTagged)
  | some scalar =>
    match depth scalar with
    | .ok d => .ok (.limit d)
    | .error _ => .ok (.limit none)

def args : Listing → Args
  | .standard => {}
  | .keyword named => .ofNamed named
  | .positional items => .ofPositional items
  | .limit d => .ofNamed [(.string depthKey, depthValue d)]

end Listing

/-! ## Opening -/

inductive Opening where
  | standard
  | keyword (named : Entries)
  | positional (items : List Value)
  | mode (name : String)

namespace Opening

def ofValue : Option Value → Except Fault Opening
  | none => .ok .standard
  | some .null => .ok .standard
  | some (.mapping named) => .ok (.keyword named)
  | some (.sequence items) => .ok (.positional items)
  | some (.string name) => .ok (.mode name)
  | some other => .error (.config (.openShape other))

def args : Opening → Args
  | .standard => {}
  | .keyword named => .ofNamed named
  | .positional items => .ofPositional items
  | .mode name => .ofNamed [(.string "mode", .string name)]

end Opening

/-! ## Both -/

/-- How a wildcard include lists and opens. -/
structure Plan where
  listing : Listing := .standard
  opening : Opening := .standard

def Plan.ofParams (positional : List Value) (named : Entries) : Except Fault Plan := do
  let (glob, opening) := match positional with
    | [] => (Entries.get? "glob" named, Entries.get? "open" named)
    | [glob] => (some glob, none)
    | glob :: opening :: _ => (some glob, some opening)
  return ⟨← Listing.ofValue glob, ← Opening.ofValue opening⟩

end Transclusion
