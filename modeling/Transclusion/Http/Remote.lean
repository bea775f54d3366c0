import Transclusion.Backend
import Transclusion.Glob.Root
import Transclusion.Http.Crawl
import Transclusion.Http.Web
import Transclusion.Includer.Construct
import Transclusion.OpenOptions

/-!
# Files on the web

* `Http.Settings` : the timeout and the headers of all requests;
* `Http.glob` : listing, by following the links below the root of a pattern;
* `Http.openOne` : one request for each file;
* `Http.backend` : the backend of the web.
-/

namespace Transclusion
namespace Http

/-- How long a request may take where nothing else is said. -/
def standardTimeout : Duration := .ofSeconds 30

structure Settings where
  timeout : Duration := standardTimeout
  headers : List (String × String) := []

variable {m : Type → Type} [Monad m]

/-- The content at a URL. Other answers than success are failures. -/
def send (web : Web m) (shown : String) (request : Except HttpFault Request) : Run m Content := do
  match request with
  | .error f => Run.raise (.http shown f)
  | .ok r =>
    match ← (web.get r : m (Except HttpFault Response)) with
    | .error f => Run.raise (.http shown f)
    | .ok answer =>
      if answer.status = 404 then Run.raise (.notFound shown)
      else if 200 ≤ answer.status && answer.status < 300 then return answer.content
      else Run.raise (.httpStatus shown answer.status)

/-! ## Listing -/

/-- How many levels are listed where neither the pattern nor an argument says so. -/
def standardDepth : Nat := 8

def fetchPage (web : Web m) (settings : Settings) (page : Url) : Run m String := do
  let content ← send web page.text (Request.make? page.text settings.headers settings.timeout)
  content.readAs page.text

/-- The URL of the directory that a pattern begins with. -/
def rootUrl (pattern : String) (root : List String) : Except Fault Url :=
  match Url.ofText? (Glob.joinSegments root ++ "/") with
  | some u => .ok u
  | none => .error (.http pattern .invalidUrl)

/-- What follows the root in a URL below it. -/
def relative? (root : Url) (url : String) : Option String :=
  (Text.dropHead? root.text.toList url.toList).map String.ofList

/-- The files that match a pattern, in ascending order. Without wildcards the pattern is a file. -/
def glob (web : Web m) (settings : Settings) (pattern : String) (args : Args) : Run m (List String) := do
  let maxdepth ← Run.ofExcept (Glob.limitOfArgs pattern args)
  let (root, rest) := Glob.splitRoot pattern
  if rest.isEmpty then return [pattern]
  else
    let url ← Run.ofExcept (rootUrl pattern root)
    let p ← Run.ofExcept (Glob.matcher (Glob.joinSegments rest))
    let depth := (Glob.depthLimit rest maxdepth).getD standardDepth
    let found ← Crawl.crawl (fetchPage web settings) url depth
    return found.filter fun u => (relative? url u).any p.accepts

/-! ## Opening -/

/-- Options of an opening besides those of every backend. -/
def openKeys : List String := ["headers", "timeout"]

def headerText? : Value → Option String
  | .string s => some s
  | .number n => some n.text
  | .bool b => some (if b then "true" else "false")
  | _ => none

def header (path : String) (e : Value × Value) : Except Fault (String × String) :=
  match e.1.text?, headerText? e.2 with
  | some name, some value => .ok (name, value)
  | _, _ => .error (.config (.header path e.1 e.2))

def headers (path : String) (args : Args) : Except Fault (List (String × String)) :=
  match Entries.get? "headers" args.named with
  | none => .ok []
  | some (.mapping es) => es.mapM (header path)
  | some _ => .error (.config (.headersShape path))

/-- A number of seconds that a request may take. -/
def seconds? (v : Value) : Option Binary64 :=
  (v.number?.map Number.toBinary64).filter fun x => x.isFinite && x.isPositive

def timeout (settings : Settings) (args : Args) : Except Failure Duration :=
  match Entries.get? "timeout" args.named with
  | none => .ok settings.timeout
  | some v =>
    match seconds? v with
    | none => .error (.fault (.config (.timeout v)))
    | some x =>
      match Duration.ofBinary64? x with
      | some d => .ok d
      | none => .error .timeoutOverflow

/-- Open a file. Its options are checked before anything is requested. -/
def openOne (web : Web m) (settings : Settings) (path : String) (args : Args) : Run m Opened := do
  let compression ← Run.ofExcept (OpenOptions.check path args openKeys)
  let own ← Run.ofExcept (headers path args)
  let timeout ← MonadExcept.ofExcept (timeout settings args)
  let content ← send web path (Request.make? path (settings.headers ++ own) timeout)
  return ⟨path, compression.unpack path content⟩

def backend (web : Web m) (settings : Settings) : Backend m :=
  .ofListing (glob web settings) (openOne web settings)

end Http
end Transclusion
