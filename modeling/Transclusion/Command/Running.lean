import Transclusion.Command.Help
import Transclusion.Command.Rendering

/-!
# Command lines from words to streams

* `Outcome` : what is written to the two output streams, and the exit code;
* `Outcome.ofArgs` : the outcome of a command line.
-/

namespace Transclusion

/-- What a program leaves behind. -/
structure Outcome where
  code : Nat
  output : String := ""
  errors : String := ""

namespace Outcome

def ofUsage (env : Environment) (u : Usage) : Outcome :=
  if u.isAnswer then { code := 0, output := u.text env } else { code := 2, errors := u.text env }

def ofResult : Except Trouble String → Outcome
  | .ok text => { code := 0, output := text }
  | .error t => { code := 1, errors := t.report.lines }

/-- A program that is cut off. Its code is none that a document or a command line has. -/
def ofCut (e : Failure) : Outcome := { code := 101, errors := e.message ++ "\n" }

variable {m : Type → Type} [Monad m]

def ofArgs (E : Regex.Engine) (env : Environment) (disk : Disk m) (web : Web m) (input : m Content)
    (args : List String) : m Outcome :=
  match Invocation.ofArgs env args with
  | .error u => return ofUsage env u
  | .ok i => do
    match ← (i.render E env disk web input).run.run with
    | .ok result => return ofResult result
    | .error e => return ofCut e

end Outcome
end Transclusion
