import Transclusion.Command.Arguments

/-!
# What the command line says of itself

* `Usage.text` : help, version, or what is wrong with a command line;
* `Usage.isAnswer` : it was asked for, and is no failure.
-/

namespace Transclusion
namespace Usage

def programName : String := "yaml-include"

def versionText : String := programName ++ " 0.1.0\n"

def usageLine : String := "Usage: " ++ programName ++ " [OPTIONS] <FILE>\n"

/-- An option with what it does and further remarks. -/
structure Entry where
  name : String
  purpose : String
  /-- Behind the purpose when help is short. -/
  shortRemark : String := ""
  /-- Below the purpose when help is long. -/
  longRemark : List String := []

def blanks (n : Nat) : String := String.ofList (List.replicate n ' ')

/-- A line below the name of an option. -/
def deep (line : String) : String := blanks 10 ++ line

def fileEntry : Entry := ⟨"<FILE>", "YAML file to load, or \x60-\x60 for stdin", "", []⟩

def entries (config : String) : List Entry := [
  ⟨"-b, --base-dir <DIR>", "Directory relative include targets are resolved against", "", []⟩,
  ⟨"-t, --tag <TAG>", "Include tag name, without the leading \x60!\x60", "", []⟩,
  ⟨"    --no-autoload", "Leave include tags unresolved", "", []⟩,
  ⟨"    --readers", "Pick a parser for each included file by its extension", "", []⟩,
  ⟨"-f, --format <FORMAT>", "Output format", " [default: yaml] [possible values: yaml, json]",
    ["", deep "Possible values:", deep "- yaml: YAML; deferred includes are written as tags",
      deep "- json: Pretty-printed JSON", deep "", deep "[default: yaml]"]⟩,
  ⟨"-c, --config <FILE>", "Configuration file", " [env: YAML_INCLUDE_CONFIG=" ++ config ++ "]",
    [deep "", deep ("[env: YAML_INCLUDE_CONFIG=" ++ config ++ "]")]⟩,
  ⟨"-v, --verbose", "Enable debug output", "", []⟩,
  ⟨"-q, --quiet", "Only print errors", "", []⟩]

def helpEntry (isLong : Bool) : Entry :=
  ⟨"-h, --help", if isLong then "Print help (see a summary with '-h')"
    else "Print help (see more with '--help')", "", []⟩

def versionEntry : Entry := ⟨"-V, --version", "Print version", "", []⟩

/-- An option on one line, the purposes of all of them below each other. -/
def shortEntry (width : Nat) (e : Entry) : String :=
  "  " ++ e.name ++ blanks (width - e.name.length) ++ "  " ++ e.purpose ++ e.shortRemark ++ "\n"

def longEntry (e : Entry) : String :=
  "  " ++ e.name ++ "\n" ++ String.join ((deep e.purpose :: e.longRemark).map (· ++ "\n"))

def shortHelp (config : String) : String :=
  let all := entries config ++ [helpEntry false, versionEntry]
  let width := (all.map fun e => e.name.length).foldl max 0
  "Resolve !inc tags in YAML documents\n\n" ++ usageLine ++ "\nArguments:\n"
    ++ shortEntry fileEntry.name.length fileEntry ++ "\nOptions:\n" ++ String.join (all.map (shortEntry width))

def longHelp (config : String) : String :=
  "Loads a YAML document, replaces every include tag with the content of the files or URLs it names, "
    ++ "and prints the result.\n\n" ++ usageLine ++ "\nArguments:\n" ++ longEntry fileEntry ++ "\nOptions:\n"
    ++ "\n".intercalate ((entries config ++ [helpEntry true, versionEntry]).map longEntry)

/-- It was asked for. -/
def isAnswer : Usage → Bool
  | help _ => true
  | version => true
  | _ => false

def text (env : Environment) (u : Usage) : String :=
  let config := (env.get? Invocation.configVariable).getD ""
  match u with
  | help isLong => if isLong then longHelp config else shortHelp config
  | version => versionText
  | missingFile => "error: the following required arguments were not provided:\n  <FILE>\n\n" ++ usageLine
  | unknownArgument => "error: unexpected argument found\n\n" ++ usageLine
  | invalidValue => "error: invalid value for an argument\n\n" ++ usageLine
  | conflict => "error: an argument cannot be used with another or twice\n\n" ++ usageLine
  | unneededValue => "error: unexpected value for an argument found\n\n" ++ usageLine

end Usage
end Transclusion
