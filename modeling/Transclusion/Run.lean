import Transclusion.Fault

/-!
# Runs

* `Failure` : a fault, or one of the two ways in which a run is cut off;
* `Run m` : a computation over the backend's own effects `m` that may fail;
* `Run.orElseOn` : another run in place of a fault, never in place of a run that is cut off;
* `Run.answer` : the value or the fault of a run;
* `Seek m` : a run that can also find its own target missing.
-/

namespace Transclusion

inductive Failure where
  | fault (f : Fault)
  /-- Includes are nested deeper than the includer allows. -/
  | nesting
  /-- A timeout is accepted that no duration can hold. -/
  | timeoutOverflow
  deriving Inhabited

def Failure.message : Failure → String
  | .fault f => f.message
  | .nesting => "includes are nested too deeply"
  | .timeoutOverflow => "cannot convert float seconds to Duration: value is either too big or NaN"

/-- A computation that may fail. The effects up to the failure stay. -/
abbrev Run (m : Type → Type) := ExceptT Failure m

variable {m : Type → Type} [Monad m] {α : Type}

namespace Run

def raise (f : Fault) : Run m α := throw (.fault f)

def ofExcept : Except Fault α → Run m α
  | .ok a => pure a
  | .error f => raise f

def ofYaml : Except YamlFault α → Run m α
  | .ok a => pure a
  | .error f => raise (.yaml f)

def orElseOn (r : Run m α) (other : Fault → Run m α) : Run m α :=
  tryCatch r fun
    | .fault f => other f
    | e => throw e

def mapFault (g : Fault → Fault) (r : Run m α) : Run m α := r.orElseOn fun f => raise (g f)

/-- The value of a run, or its fault. A run that is cut off has no answer, and what was to follow it is cut off too. -/
def answer (r : Run m α) : Run m (Except Fault α) :=
  tryCatch (do return .ok (← r)) fun
    | .fault f => return .error f
    | e => throw e

end Run

/-! ## Looking for a target -/

structure Missing where
  path : String
  deriving DecidableEq

/-- A run that can find its own target missing. -/
abbrev Seek (m : Type → Type) := ExceptT Missing (Run m)

/-- An access of one's own, where a file that is not there is the missing target. -/
def Seek.own (r : Run m α) : Seek m α :=
  ExceptT.mk (tryCatch (do return .ok (← r)) fun
    | .fault (.notFound path) => pure (.error ⟨path⟩)
    | e => throw e)

end Transclusion
