import Transclusion.Directive
import Transclusion.Includer.Construct
import Transclusion.Plan

/-!
# Resolution

* `Includer.loadWith`, `Includer.parseContentWith` : texts and contents, given what resolves a
  directive;
* `Includer.resolveWith` : a directive, given what parses an included content;
* `Includer.resolveAt` : both together, with a bound on how deep includes are nested;
* `Includer.load`, `Includer.parseContent`, `Includer.parseText`, `Includer.resolve` : the same
  within the includer's own bound.

An include's own target may be missing, and then its default stands for it. A file that is there
but cannot be parsed is never replaced, not even when what it includes is missing.
-/

namespace Transclusion
namespace Includer

variable {m : Type → Type} [Monad m]

/-! ## Texts and contents -/

/-- What stands for an include with this payload. -/
def handle (I : Includer m) (resolve : Directive → Run m Value) (payload : Value) : Run m Value := do
  let d ← Run.ofExcept (Directive.ofNode payload)
  if I.autoload then resolve d else return d.toNode I.tag

def constructWith (I : Includer m) (resolve : Directive → Run m Value) (v : Value) : Run m Value :=
  construct I.isInclude (I.handle resolve) v

def loadWith (I : Includer m) (resolve : Directive → Run m Value) (text : String) : Run m Value := do
  I.constructWith resolve (← Run.ofYaml (Value.ofYaml text))

def loadContentWith (I : Includer m) (resolve : Directive → Run m Value) (c : Content) :
    Run m Value := do
  I.loadWith resolve (← c.readAs streamPath)

def parseTextWith (I : Includer m) (resolve : Directive → Run m Value) (path text : String) :
    Run m Value :=
  (I.loadWith resolve text).mapFault (Fault.named path)

/-- The content of the file `path`, read by the loader if there is one. -/
def parseContentWith (I : Includer m) (resolve : Directive → Run m Value) (path : String)
    (c : Content) : Run m Value :=
  match I.loader with
  | some load => load (I.parseTextWith resolve) path c
  | none => (I.loadContentWith resolve c).mapFault (Fault.named path)

/-! ## Directives -/

/-- What one file adds to a sequence of files: its value, or the items of its value. -/
def pieces (flatten : Bool) (path : String) (v : Value) : Run m (List Value) :=
  if flatten then
    match v with
    | .sequence items => return items
    | other => Run.raise (.flattenNotSequence path other.kind)
  else return [v]

/-- What the files add one after the other. Each is opened after the one before it was parsed. -/
def gather {α : Type} (flatten : Bool) (parse : String → Content → Run m Value)
    (openOne : α → Seek m Opened) : List α → Seek m (List Value)
  | [] => return []
  | a :: rest => do
    let file ← openOne a
    let items ← (do pieces flatten file.path (← parse file.path file.content) : Run m (List Value))
    return items ++ (← gather flatten parse openOne rest)

/-- The value of a directive's target, found at `path`. -/
def found (I : Includer m) (parse : String → Content → Run m Value) (d : Directive) (route : Route)
    (path : String) : Seek m Value :=
  match route with
  | .remoteGlob => do
    let files ← Seek.own (I.backend.openMatching path d.args)
    return .sequence (← gather d.flatten parse pure files)
  | .localGlob => do
    let plan ← (Run.ofExcept (Plan.ofParams d.positional d.named) : Run m Plan)
    let paths ← Seek.own (I.backend.glob path plan.listing.args)
    let openOne (p : String) : Seek m Opened := Seek.own (I.backend.openOne p plan.opening.args)
    return .sequence (← gather d.flatten parse openOne paths)
  | .remoteSingle | .localSingle => do
    let file ← Seek.own (I.backend.openOne path d.args)
    (parse file.path file.content : Run m Value)

/-- The value of a default. A text is parsed as if it were the missing file; a text that cannot be
parsed stands for itself. -/
def defaultValue (parse : String → Content → Run m Value) (path : String) : Value → Run m Value
  | .string text => (parse path (.ofText text)).orElseOn fun _ => return .string text
  | other => return other

def resolveWith (I : Includer m) (parse : String → Content → Run m Value) (d : Directive) :
    Run m Value := do
  let target := Target.resolve d.target (← I.currentBase)
  match ← (I.found parse d target.route target.path).run with
  | .ok v => return v
  | .error missing =>
    match d.default with
    | some v => defaultValue parse target.path v
    | none => Run.raise (.notFound missing.path)

/-- The value of a directive, with at most `left` includes inside one another. -/
def resolveAt (I : Includer m) : (left : Nat) → Directive → Run m Value
  | 0, _ => throw .nesting
  | left + 1, d => I.resolveWith (I.parseContentWith (I.resolveAt left)) d

/-! ## Within the includer's own bound -/

/-- The value of a directive, also where includes are left as tagged nodes. -/
def resolve (I : Includer m) (d : Directive) : Run m Value := I.resolveAt I.nesting d

def constructTree (I : Includer m) (v : Value) : Run m Value := I.constructWith I.resolve v

def load (I : Includer m) (text : String) : Run m Value := I.loadWith I.resolve text

def loadContent (I : Includer m) (c : Content) : Run m Value := I.loadContentWith I.resolve c

def parseText (I : Includer m) (path text : String) : Run m Value := I.parseTextWith I.resolve path text

def parseContent (I : Includer m) (path : String) (c : Content) : Run m Value :=
  I.parseContentWith I.resolve path c

end Includer
end Transclusion
