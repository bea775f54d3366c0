import Transclusion.Includer.Basic

/-!
# Includes of a document

* `construct` : a tree with every include replaced by what stands for it, innermost first;
* `Fault.named` : the file of a fault that does not name one yet.
-/

namespace Transclusion

variable {m : Type → Type} [Monad m]

/-! ## Trees -/

mutual

/-- A tree in which `handle` has replaced the payload of every include. Keys are treated like all
other nodes; an entry whose key is there already only changes that key's value. -/
def construct (isInclude : Tag → Bool) (handle : Value → Run m Value) : Value → Run m Value
  | .tagged t v => do
    let w ← construct isInclude handle v
    if isInclude t then handle w else return .tagged t w
  | .sequence items => do return .sequence (← constructAll isInclude handle items)
  | .mapping entries => do
    return .mapping (Entries.ofPairs (← constructEntries isInclude handle entries))
  | .null => return .null
  | .bool b => return .bool b
  | .number n => return .number n
  | .string s => return .string s

def constructAll (isInclude : Tag → Bool) (handle : Value → Run m Value) :
    List Value → Run m (List Value)
  | [] => return []
  | v :: rest => do
    let w ← construct isInclude handle v
    return w :: (← constructAll isInclude handle rest)

def constructEntries (isInclude : Tag → Bool) (handle : Value → Run m Value) :
    Entries → Run m Entries
  | [] => return []
  | (k, v) :: rest => do
    let key ← construct isInclude handle k
    let value ← construct isInclude handle v
    return (key, value) :: (← constructEntries isInclude handle rest)

end

/-! ## Faults of a stream -/

/-- The path of a stream whose file is not known. -/
def streamPath : String := "<stream>"

/-- A fault as it is told of the file `path`: faults of the stream itself get its name, faults of
files that are included further in keep theirs. -/
def Fault.named (path : String) : Fault → Fault
  | .yaml cause => .parse path (.yaml cause)
  | .io operation stream cause => .io operation (if stream = streamPath then path else stream) cause
  | f => f

def Content.readAs (path : String) (c : Content) : Run m String :=
  match c.text? with
  | .ok text => pure text
  | .error f => Run.raise (.ofIo "reading" path f)

end Transclusion
