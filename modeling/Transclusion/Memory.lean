import Transclusion.Backend
import Transclusion.Glob.Pattern

/-!
# Files in memory

* `Memory` : texts under paths, ascending by path;
* `Memory.paths`, `Memory.backend` : a pattern is matched against each whole path.
-/

namespace Transclusion

/-- Texts under paths. -/
structure Memory where
  files : List (String × String)

namespace Memory

variable {m : Type → Type} [Monad m]

/-- Files given in any order. The last of two under one path counts. -/
def ofList (files : List (String × String)) : Memory :=
  let kept := files.foldr (fun f rest => if rest.any (·.1 == f.1) then rest else f :: rest) []
  ⟨kept.mergeSort fun a b => a.1 ≤ b.1⟩

def text? (d : Memory) (path : String) : Option String :=
  (d.files.find? (·.1 == path)).map (·.2)

def paths (d : Memory) (pattern : String) : Except Fault (List String) :=
  match Glob.Matcher.ofText pattern with
  | .ok matcher => .ok ((d.files.map (·.1)).filter matcher.accepts)
  | .error f => .error (.config (.globPattern pattern f))

def file (d : Memory) (path : String) : Except Fault Opened :=
  match d.text? path with
  | some text => .ok ⟨path, .ofText text⟩
  | none => .error (.notFound path)

/-- The backend of these files. It takes no options into account. -/
def backend (d : Memory) : Backend m where
  glob pattern _ := Run.ofExcept (d.paths pattern)
  openOne path _ := Run.ofExcept (d.file path)
  openMatching pattern _ := Run.ofExcept do (← d.paths pattern).mapM d.file

end Memory
end Transclusion
