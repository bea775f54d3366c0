import Transclusion.Fault

/-!
# Failures shown to a person

* `Report` : a message with details and a suggestion; `Report.display` : its lines;
* `Trouble` : a failure inside layers of context, or some other failure;
* `Trouble.report` : the whole chain of messages, with advice for known failures.
-/

namespace Transclusion

structure Report where
  message : String
  suggestion : Option String := none
  details : Option String := none
  deriving DecidableEq

namespace Report

/-- One line each. -/
def display (r : Report) : String :=
  r.message ++ (match r.details with | some d => "\nDetails: " ++ d | none => "")
    ++ (match r.suggestion with | some s => "\nSuggestion: " ++ s | none => "")

def lines (r : Report) : String :=
  "error: " ++ r.message ++ "\n"
    ++ (match r.details with | some d => "details: " ++ d ++ "\n" | none => "")
    ++ (match r.suggestion with | some s => "suggestion: " ++ s ++ "\n" | none => "")

end Report

def Fault.advice : Fault → Option String × Option String
  | .notFound _ =>
    (some "Relative include paths are resolved against the base directory",
      some "Check the include path, or add a `default:` to the include mapping to make it optional")
  | .invalidDirective _ =>
    (none, some "Use `!inc path`, `!inc [path, ...]` or `!inc \x7burlpath: path, ...\x7d`")
  | .flattenNotSequence _ _ =>
    (none, some "Remove `flatten: true` or make every matched file a YAML sequence")
  | .unsupportedScheme _ _ =>
    (some "Only local paths, file:// and http(s):// URLs are supported", none)
  | .unsupportedFormat _ =>
    (none, some "Readers exist for .yaml, .yml, .json, .toml, .ini and .txt files")
  | .http _ _ => (none, some "Check your network connection and the URL")
  | .httpStatus _ _ => (none, some "Check your network connection and the URL")
  | .config _ => (none, some "Check the include options and the configuration file")
  | _ => (none, none)

inductive Cause where
  | fault (f : Fault)
  | other (message : String)

/-- A failure inside layers of context, the outermost first. -/
structure Trouble where
  context : List String
  cause : Cause

namespace Trouble

def ofFault (f : Fault) : Trouble := ⟨[], .fault f⟩

/-- One more layer around a failure. -/
def within (t : Trouble) (layer : String) : Trouble := { t with context := layer :: t.context }

def messages (t : Trouble) : List String :=
  t.context ++ match t.cause with
    | .fault f => f.chain
    | .other m => [m]

def report (t : Trouble) : Report :=
  let message := ": ".intercalate t.messages
  match t.cause with
  | .fault f => ⟨message, f.advice.2, f.advice.1⟩
  | .other _ => ⟨message, none, none⟩

end Trouble
end Transclusion
