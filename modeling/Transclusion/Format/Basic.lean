import Transclusion.Includer.Construct
import Transclusion.Includer.Resolve
import Transclusion.Ini.Reading
import Transclusion.Json.Reading
import Transclusion.Toml.Reading

/-!
# Formats of included files

* `Format` : the ways to read a text; `Format.ofName`, `Format.name` : their names;
* `Format.parse` : the value of a text in a format.
-/

namespace Transclusion

/-- How the text of an included file is read. -/
inductive Format where
  | yaml
  | json
  | toml
  | ini
  /-- The whole text is one string. -/
  | plain
  deriving DecidableEq, Inhabited

namespace Format

def name : Format → String
  | yaml => "yaml"
  | json => "json"
  | toml => "toml"
  | ini => "ini"
  | plain => "text"

/-- The format with a name. The case of ASCII letters does not count. -/
def ofName (given : String) : Except Fault Format :=
  let lower := Text.toLowerAscii given
  match lower with
  | "yaml" | "yml" => .ok yaml
  | "json" => .ok json
  | "toml" => .ok toml
  | "ini" => .ok ini
  | "text" | "txt" | "plain" => .ok plain
  | _ => .error (.config (.readerName lower))

/-- A value that a reading may not have. -/
def orFault (path : String) (cause : ParseFault) : Option Value → Except Fault Value
  | some v => .ok v
  | none => .error (.parse path cause)

variable {m : Type → Type} [Monad m]

/-- The value of a text. `parseText` reads document texts and resolves the includes in them. -/
def parse (f : Format) (parseText : String → String → Run m Value) (path text : String) :
    Run m Value :=
  match f with
  | yaml => parseText path text
  | json => Run.ofExcept (orFault path .json (Value.ofJson? text))
  | toml => Run.ofExcept (orFault path .toml (Value.ofToml? text))
  | ini =>
    match Value.ofIni text with
    | .ok v => return v
    | .error cause => Run.raise (.parse path (.ini cause))
  | plain => return .string text

end Format
end Transclusion
