import Transclusion.Environment
import Transclusion.Text.Cut

/-!
# Arguments of the command line

* `Invocation` : what a command line asks for;
* `Usage` : why it asks for nothing that can be done;
* `Invocation.ofArgs` : a command line by its words.

The value of an option that stands in a word of its own is checked when the next option or file is
met, so that an unknown option behind it is told of first.
-/

namespace Transclusion

inductive OutputFormat where
  | yaml
  | json
  deriving DecidableEq

/-- What a command line asks for. -/
structure Invocation where
  /-- The document file; a lone hyphen stands for the input stream. -/
  file : String
  baseDir : Option String
  tag : Option String
  noAutoload : Bool
  byName : Bool
  format : OutputFormat
  /-- The settings file. -/
  config : Option String
  verbose : Bool
  quiet : Bool

/-- What ends a command line early. -/
inductive Usage where
  | help (isLong : Bool)
  | version
  | missingFile
  | unknownArgument
  | invalidValue
  /-- Given twice, or together with another. -/
  | conflict
  /-- A value for an option that takes none. -/
  | unneededValue
  deriving DecidableEq

/-! ## Options -/

inductive Setting where
  | baseDir
  | tag
  | format
  | config
  deriving DecidableEq

inductive Flag where
  | noAutoload
  | byName
  | verbose
  | quiet
  deriving DecidableEq

/-- What an option stands for. -/
inductive Switch where
  | setting (s : Setting)
  | flag (f : Flag)
  /-- Nothing else is looked at. -/
  | stop (u : Usage)
  deriving DecidableEq

namespace Switch

/-- All options with their long names, and their letters if they have one. -/
def table : List (String × Option Char × Switch) := [
  ("base-dir", some 'b', .setting .baseDir),
  ("tag", some 't', .setting .tag),
  ("no-autoload", none, .flag .noAutoload),
  ("readers", none, .flag .byName),
  ("format", some 'f', .setting .format),
  ("config", some 'c', .setting .config),
  ("verbose", some 'v', .flag .verbose),
  ("quiet", some 'q', .flag .quiet),
  ("help", none, .stop (.help true)),
  ("version", some 'V', .stop .version)]

def ofName? (name : List Char) : Option Switch :=
  (table.find? fun row => row.1.toList == name).map (·.2.2)

/-- The option with a letter. Help is shorter when a letter asks for it. -/
def ofLetter? (c : Char) : Option Switch :=
  if c == 'h' then some (.stop (.help false))
  else (table.find? fun row => row.2.1 == some c).map (·.2.2)

end Switch

def Setting.accepts (s : Setting) (value : String) : Bool :=
  match s with
  | format => value == "yaml" || value == "json"
  | config => !value.isEmpty
  | _ => true

/-! ## Reading -/

/-- A word that is not checked yet. -/
inductive Waiting where
  | value (s : Setting) (given : Option String)
  | file (path : String)

structure Given where
  settings : List (Setting × String) := []
  flags : List Flag := []
  file : Option String := none
  waiting : Option Waiting := none

namespace Given

def setting? (g : Given) (s : Setting) : Option String := (g.settings.find? (·.1 == s)).map (·.2)

def hasFile (g : Given) : Bool :=
  g.file.isSome || match g.waiting with
    | some (.file _) => true
    | _ => false

/-- One more setting, which must be the first of its kind. -/
def addSetting (g : Given) (s : Setting) (value : String) : Except Usage Given :=
  if (g.setting? s).isSome then .error .conflict
  else if s.accepts value then .ok { g with settings := g.settings ++ [(s, value)] }
  else .error .invalidValue

def addFlag (g : Given) (f : Flag) : Except Usage Given :=
  if g.flags.contains f then .error .conflict else .ok { g with flags := g.flags ++ [f] }

/-- Check the word that is waiting. -/
def settle (g : Given) : Except Usage Given :=
  match g.waiting with
  | none => .ok g
  | some (.value _ none) => .error .invalidValue
  | some (.value s (some v)) => ({ g with waiting := none } : Given).addSetting s v
  | some (.file path) =>
    if path.isEmpty then .error .invalidValue else .ok { g with waiting := none, file := some path }

/-- An option, perhaps with a value in the same word. -/
def meet (g : Given) (switch : Switch) (value : Option String) : Except Usage Given :=
  match switch, value with
  | .setting s, some v => do (← g.settle).addSetting s v
  | .setting s, none => do return { ← g.settle with waiting := some (.value s none) }
  | _, some _ => .error .unneededValue
  | .flag f, none => do (← g.settle).addFlag f
  | .stop u, none => do
    let _ ← g.settle
    throw u

/-- Letters after a hyphen. An option with a value takes all that follows it. -/
def letters (g : Given) : List Char → Except Usage Given
  | [] => .ok g
  | c :: rest =>
    match Switch.ofLetter? c, rest with
    | none, _ => .error .unknownArgument
    | some (.setting s), [] => g.meet (.setting s) none
    | some (.setting s), '=' :: v => g.meet (.setting s) (some (String.ofList v))
    | some (.setting s), v => g.meet (.setting s) (some (String.ofList v))
    | some switch, rest => do (← g.meet switch none).letters rest

/-- A word that is no option: the value that is waited for, or else the file. -/
def word (g : Given) (afterMark : Bool) (w : String) : Except Usage Given :=
  match g.waiting, afterMark with
  | some (.value s none), false => .ok { g with waiting := some (.value s (some w)) }
  | _, _ =>
    if g.hasFile then .error .unknownArgument
    else do return { ← g.settle with waiting := some (.file w) }

/-- All words. After a lone `--` none of them is an option. -/
def read (g : Given) : (afterMark : Bool) → List String → Except Usage Given
  | _, [] => .ok g
  | true, w :: rest => do (← g.word true w).read true rest
  | false, w :: rest =>
    match w.toList with
    | ['-', '-'] => g.read true rest
    | '-' :: '-' :: long =>
      let (name, value) := Text.cutOptional '=' long
      match Switch.ofName? name with
      | none => .error .unknownArgument
      | some switch => do (← g.meet switch (value.map String.ofList)).read false rest
    | '-' :: c :: cs => do (← g.letters (c :: cs)).read false rest
    | _ => do (← g.word false w).read false rest

end Given

/-! ## Command lines -/

namespace Invocation

/-- The variable that names a settings file where the command line does not. -/
def configVariable : String := "YAML_INCLUDE_CONFIG"

def configOf (env : Environment) (g : Given) : Except Usage (Option String) :=
  match g.setting? .config, env.get? configVariable with
  | some path, _ => .ok (some path)
  | none, some path => if Setting.config.accepts path then .ok (some path) else .error .invalidValue
  | none, none => .ok none

def ofArgs (env : Environment) (args : List String) : Except Usage Invocation := do
  let g ← (← ({} : Given).read false args).settle
  let config ← configOf env g
  if g.flags.contains .verbose && g.flags.contains .quiet then throw .conflict
  match g.file with
  | none => throw .missingFile
  | some file =>
    return { file, config, baseDir := g.setting? .baseDir, tag := g.setting? .tag,
             noAutoload := g.flags.contains .noAutoload, byName := g.flags.contains .byName,
             format := if g.setting? .format == some "json" then .json else .yaml,
             verbose := g.flags.contains .verbose, quiet := g.flags.contains .quiet }

/-- The document is read from the input stream. -/
def readsStream (i : Invocation) : Bool := i.file == "-"

end Invocation
end Transclusion
