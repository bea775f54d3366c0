import Std.Data.ExtTreeMap
import Transclusion.Dispatch
import Transclusion.Format.Table

/-!
# Settings

* `Settings` : what a settings file can say;
* `Settings.overlay` : further settings on top of others;
* `Settings.table`, `Settings.web` : the formats by file name, and how requests are sent;
* `Settings.options` : the includer that is described.
-/

namespace Transclusion

structure FormatRule where
  pattern : String
  format : String
  deriving DecidableEq

structure Settings where
  /-- The name of the include tag. -/
  tag : Option String := none
  baseDir : Option String := none
  autoload : Option Bool := none
  /-- Included files are read in the format of their names. -/
  byName : Bool := false
  /-- Rules after the standard ones. -/
  rules : List FormatRule := []
  /-- The seconds that a request may take. -/
  timeout : Option Nat := none
  /-- Headers of all requests. -/
  headers : Std.ExtTreeMap String String := ∅

namespace Settings

/-- Settings on top of others: what both say is taken from `upper`, and its rules come last. -/
def overlay (lower upper : Settings) : Settings where
  tag := upper.tag <|> lower.tag
  baseDir := upper.baseDir <|> lower.baseDir
  autoload := upper.autoload <|> lower.autoload
  byName := lower.byName || upper.byName
  rules := lower.rules ++ upper.rules
  timeout := upper.timeout <|> lower.timeout
  headers := lower.headers ∪ upper.headers

def layered (layers : List Settings) : Settings := layers.foldl overlay {}

/-- Included files are read in the format of their names. A single rule is enough for that. -/
def readsByName (s : Settings) : Bool := s.byName || !s.rules.isEmpty

def pushRule {E : Regex.Engine} (t : FormatTable E) (r : FormatRule) : Except Fault (FormatTable E) := do
  t.push r.pattern (← Format.ofName r.format)

def table (s : Settings) (E : Regex.Engine) : Except Fault (FormatTable E) := s.rules.foldlM pushRule .standard

def web (s : Settings) : Http.Settings :=
  { timeout := (s.timeout.map Duration.ofSeconds).getD Http.standardTimeout, headers := s.headers.toList }

variable {m : Type → Type} [Monad m]

def loader? (s : Settings) (E : Regex.Engine) : Except Fault (Option (Loader m)) :=
  if s.readsByName then do return some (← s.table E).loader else .ok none

/-- The base directory, with its variables expanded. -/
def base? (s : Settings) (env : Environment) : Except Fault (Option (BaseDir m)) :=
  match s.baseDir with
  | none => .ok none
  | some path =>
    match BaseDir.expanded env path with
    | .ok base => .ok (some base)
    | .error unset => .error (.config (.baseDir path unset))

def options (s : Settings) (E : Regex.Engine) (env : Environment) (disk : Disk m) (web : Web m) :
    Except Fault (Includer.Options m) := do
  let base ← s.base? env
  let loader ← s.loader? E
  return { backend := .standard disk web s.web, baseDir := base, autoload := s.autoload,
           loader := loader, tag := s.tag }

def includer (s : Settings) (E : Regex.Engine) (env : Environment) (disk : Disk m) (web : Web m) :
    Except Fault (Includer m) := do
  (← s.options E env disk web).build

end Settings
end Transclusion
