import Transclusion.Environment
import Transclusion.Glob.Pattern
import Transclusion.Io
import Transclusion.Value.Describe
import Transclusion.Yaml.Fault

/-!
# What can go wrong

* `DirectiveFault`, `ConfigFault`, `IniFault`, `ParseFault`, `HttpFault` : the causes, by area;
* `Fault` : a failure with what it concerns;
* `Fault.message` : its text; `Fault.isNotFound` : the only failure that a default replaces.
-/

namespace Transclusion

/-! ## Causes -/

/-- Why the payload of an include tag is no directive. -/
inductive DirectiveFault where
  | emptyTarget
  | emptySequence
  | keyNotIdentifier (key : Value)
  | twoTargets
  | noTargetKey
  | nullTarget
  | collectionTarget
  | taggedTarget (tag : Tag)
  /-- A reason given by the caller. -/
  | stated (reason : String)

def DirectiveFault.message : DirectiveFault → String
  | emptyTarget => "include target must not be empty"
  | emptySequence => "sequence form needs the target as its first element"
  | keyNotIdentifier key => "mapping keys must be identifier strings, found " ++ key.describe
  | twoTargets => "give either `urlpath` or `target`, not both"
  | noTargetKey => "mapping form requires a `urlpath` key"
  | nullTarget => "include tag needs a target"
  | collectionTarget => "include target must be a scalar"
  | taggedTarget tag => "unsupported node: nested tag " ++ tag.text ++ " inside an include"
  | stated reason => reason

/-- Which setting or parameter is unusable, and why. -/
inductive ConfigFault where
  | flattenUnreadable
  | flattenNotBoolean (given : Value)
  | globTagged
  | openShape (given : Value)
  | depthNegative (given : Number)
  | depthText (given : String)
  | depthShape (given : Value)
  | compressionName (given : String)
  | compressionShape (given : Value)
  | openKeys (path : String) (keys : List String)
  | openPositions (path : String)
  | openMode (given : Value)
  | encoding (given : Value)
  | globKeys (pattern : String) (keys : List String)
  | globPositions (pattern : String)
  | globPattern (pattern : String) (fault : Glob.Fault)
  | rulePattern (pattern : String)
  | readerName (given : String)
  | headersShape (path : String)
  | header (path : String) (name value : Value)
  | timeout (given : Value)
  | tagName (given : String)
  | baseDir (given : String) (unset : Environment.Unset)
  | file (path : String)
  /-- A reason given by the caller. -/
  | stated (reason : String)

def ConfigFault.message : ConfigFault → String
  | flattenUnreadable => "`flatten` must be a boolean"
  | flattenNotBoolean v => "`flatten` must be a boolean, got " ++ v.describe
  | globTagged => "glob parameters cannot be a tagged value"
  | openShape v => "invalid open parameter: " ++ v.describe
  | depthNegative n => "maxdepth must be a non-negative integer, got " ++ n.text
  | depthText s => "maxdepth must be an integer, got '" ++ s ++ "'"
  | depthShape v => "maxdepth must be an integer, got " ++ v.describe
  | compressionName s => "unsupported compression '" ++ s ++ "'"
  | compressionShape v => "invalid compression " ++ v.describe
  | openKeys path keys =>
    "unsupported open option(s) for '" ++ path ++ "': " ++ ", ".intercalate keys
  | openPositions path => "too many positional open options for '" ++ path ++ "'"
  | openMode v => "included files are read-only, invalid mode " ++ v.describe
  | encoding v => "unsupported encoding " ++ v.describe ++ ", only utf-8 is read"
  | globKeys pattern keys =>
    "unsupported glob option(s) for '" ++ pattern ++ "': " ++ ", ".intercalate keys
  | globPositions pattern =>
    "unsupported glob option(s) for '" ++ pattern ++ "': extra positional values"
  | globPattern pattern f => "Invalid glob pattern '" ++ pattern ++ "': " ++ f.message
  | rulePattern pattern => "invalid reader pattern '" ++ pattern ++ "'"
  | readerName s =>
    "unknown reader '" ++ s ++ "', expected one of: yaml, json, toml, ini, text"
  | headersShape path => "`headers` for '" ++ path ++ "' must be a mapping"
  | header path name value =>
    "invalid header " ++ name.describe ++ ": " ++ value.describe ++ " for '" ++ path ++ "'"
  | timeout v => "`timeout` must be a positive number, got " ++ v.describe
  | tagName s => "invalid include tag name '" ++ s ++ "'"
  | baseDir path unset => "Cannot expand base dir '" ++ path ++ "': " ++ unset.message
  | file path => "Failed to parse config file " ++ path
  | stated reason => reason

/-- Why a text is no INI file; lines are counted from one. -/
inductive IniFault where
  | noSeparator (line : Nat) (found : String)
  | noSection (line : Nat)
  deriving DecidableEq

def IniFault.message : IniFault → String
  | noSeparator line found =>
    "line " ++ toString line ++ ": expected `key = value`, found '" ++ found ++ "'"
  | noSection line => "line " ++ toString line ++ ": entry before any section header"

inductive ParseFault where
  | yaml (fault : YamlFault)
  | json
  | toml
  | ini (fault : IniFault)
  /-- A reason given by the caller. -/
  | stated (reason : String)

def ParseFault.message : ParseFault → String
  | yaml fault => fault.message
  | json => "not a JSON document"
  | toml => "not a TOML document"
  | ini fault => fault.message
  | stated reason => reason

inductive HttpFault where
  | unreachable (url : String)
  | invalidRequest
  | invalidUrl
  /-- A reason given by the caller. -/
  | stated (reason : String)

def HttpFault.message : HttpFault → String
  | unreachable url => "error sending request for url (" ++ url ++ ")"
  | invalidRequest => "builder error"
  | invalidUrl => "invalid URL"
  | stated reason => reason

/-! ## Failures -/

inductive Fault where
  | notFound (path : String)
  | invalidDirective (cause : DirectiveFault)
  | flattenNotSequence (path found : String)
  | config (cause : ConfigFault)
  | unsupportedScheme (scheme url : String)
  | unsupportedFormat (path : String)
  | parse (path : String) (cause : ParseFault)
  | notMutable (location : String)
  | io (operation path : String) (cause : IoFault)
  | http (url : String) (cause : HttpFault)
  | httpStatus (url : String) (status : Nat)
  | yaml (cause : YamlFault)
  deriving Inhabited

namespace Fault

def message : Fault → String
  | notFound path => "Included file not found: " ++ path
  | invalidDirective cause => "Invalid include directive: " ++ cause.message
  | flattenNotSequence path found =>
    "Cannot flatten '" ++ path ++ "': expected a sequence at the top level, found " ++ found
  | config cause => "Configuration error: " ++ cause.message
  | unsupportedScheme scheme url => "Unsupported protocol '" ++ scheme ++ "' in '" ++ url ++ "'"
  | unsupportedFormat path => "Unsupported file name '" ++ path ++ "': no reader matches it"
  | parse path cause => "Failed to parse '" ++ path ++ "': " ++ cause.message
  | notMutable location => "Cannot replace include at " ++ location ++ ": value is not mutable"
  | io operation path cause => "I/O error while " ++ operation ++ " '" ++ path ++ "': " ++ cause.text
  | http url cause => "HTTP request to '" ++ url ++ "' failed: " ++ cause.message
  | httpStatus url status => "HTTP request to '" ++ url ++ "' returned status " ++ toString status
  | yaml cause => "YAML error: " ++ cause.message

/-- The texts of a failure and of what lies under it. -/
def chain : Fault → List String
  | f@(io _ _ cause) => [f.message, cause.text]
  | f@(yaml cause) => [f.message, cause.message]
  | f => [f.message]

/-- A failed access; a file that is not there is a failure of its own. -/
def ofIo (operation path : String) (cause : IoFault) : Fault :=
  if cause.kind = .notFound then .notFound path else .io operation path cause

def isNotFound : Fault → Bool
  | notFound _ => true
  | _ => false

theorem isNotFound_iff {f : Fault} : f.isNotFound = true ↔ ∃ path, f = .notFound path := by
  cases f <;> simp [isNotFound]

end Fault
end Transclusion
