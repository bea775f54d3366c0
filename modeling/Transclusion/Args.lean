import Transclusion.Value.Describe
import Transclusion.Value.Entries

/-!
# Arguments of a backend call

* `Args` : positional and named arguments;
* `Args.get?` : an option by name, else by position;
* `Args.partition` : named arguments picked out by name; `Args.unknownKeys` : all others.
-/

namespace Transclusion

structure Args where
  positional : List Value := []
  named : Entries := []
  deriving Inhabited

namespace Args

def ofNamed (named : Entries) : Args := { named := named }

def ofPositional (positional : List Value) : Args := { positional := positional }

def isEmpty (a : Args) : Bool := a.positional.isEmpty && a.named.isEmpty

/-- An option: the named one, else the one at a position. -/
def get? (a : Args) (key : String) (index : Nat) : Option Value :=
  (Entries.get? key a.named).orElse fun _ => a.positional[index]?

/-- The key of an entry, tagged or not, is one of `keys`. -/
def selects (keys : List String) (e : Value × Value) : Bool := e.1.text?.any keys.contains

/-- The named arguments with one of the keys, and everything else. -/
def partition (a : Args) (keys : List String) : Args × Args :=
  (ofNamed (a.named.filter (selects keys)),
    ⟨a.positional, a.named.filter fun e => !selects keys e⟩)

/-- A key that is not one of the plain texts `allowed`, as it is shown. -/
def unknownKey? (allowed : List String) : Value → Option String
  | .string s => if allowed.contains s then none else some s
  | other => some other.describe

def unknownKeys (a : Args) (allowed : List String) : List String :=
  a.named.filterMap fun e => unknownKey? allowed e.1

end Args
end Transclusion
