import Transclusion.Command.Arguments
import Transclusion.Json.Writing
import Transclusion.Report
import Transclusion.Settings.Reading
import Transclusion.Yaml.Writing

/-!
# Doing what a command line asks for

* `Attempt m` : a run whose faults tell where they happened;
* `Invocation.includer` : the settings file, the options above it, and the document's directory;
* `Invocation.render` : the document with its includes, as a text.
-/

namespace Transclusion

/-- A run whose faults tell where they happened. Where it is cut off there is nothing to tell. -/
abbrev Attempt (m : Type → Type) := ExceptT Trouble (Run m)

def Run.attempt {m : Type → Type} [Monad m] {α : Type} (context : List String) (r : Run m α) : Attempt m α :=
  ExceptT.mk do
    match ← r.answer with
    | .ok a => return .ok a
    | .error f => return .error ⟨context, .fault f⟩

namespace Invocation

variable {m : Type → Type} [Monad m]

/-- What the options say on top of a settings file. -/
def settings (i : Invocation) : Settings :=
  { tag := i.tag, baseDir := i.baseDir, autoload := if i.noAutoload then some false else none,
    byName := i.byName }

/-- The directory of the document file, where its path names one. -/
def directory? (i : Invocation) : Option String :=
  if i.readsStream then none else (Path.parent? i.file).filter fun d => !d.isEmpty

/-- Settings with a base directory, if there is any. -/
def withDirectory (i : Invocation) (s : Settings) : Settings :=
  { s with baseDir := s.baseDir <|> i.directory? }

def fileSettings (i : Invocation) (disk : Disk m) : Attempt m Settings :=
  match i.config with
  | none => return {}
  | some path => (Settings.load disk path).attempt ["Failed to load configuration " ++ path]

def includer (i : Invocation) (E : Regex.Engine) (env : Environment) (disk : Disk m) (web : Web m) :
    Attempt m (Includer m) := do
  let below ← i.fileSettings disk
  let s := i.withDirectory (below.overlay i.settings)
  (Run.ofExcept (s.includer E env disk web)).attempt []

def document (i : Invocation) (I : Includer m) (disk : Disk m) (input : m Content) : Attempt m Value :=
  if i.readsStream then
    Run.attempt ["Failed to load stdin"] do I.loadContent (← (input : m Content))
  else (I.loadFile disk i.file).attempt ["Failed to load " ++ i.file]

def write (i : Invocation) (v : Value) : Except Trouble String :=
  match i.format with
  | .yaml =>
    match v.toYaml with
    | .ok text => .ok text
    | .error f => .error (.ofFault (.yaml f))
  | .json =>
    match v.toJson with
    | .ok text => .ok text
    | .error f => .error ⟨["Document cannot be represented as JSON"], .other f.message⟩

def render (i : Invocation) (E : Regex.Engine) (env : Environment) (disk : Disk m) (web : Web m)
    (input : m Content) : Attempt m String := do
  let I ← i.includer E env disk web
  let v ← i.document I disk input
  MonadExcept.ofExcept (i.write v)

end Invocation
end Transclusion
