import Transclusion.Environment
import Transclusion.Path
import Transclusion.Text.Lower

/-!
# Targets

* `Address` : the five parts of a target; `Address.split` takes a target apart,
  `Address.withPath` puts it together around another path;
* `Target.scheme?` : the protocol that a target names;
* `BaseDir` : a directory that is fixed, or asked for at every resolution;
* `Target.resolve` : a target below a base directory; `Resolved.route` : what to do with it.
-/

namespace Transclusion

open Text

/-! ## The parts of a target -/

/-- The parts of a target, as they are written. -/
structure Address where
  scheme : String
  authority : String
  path : String
  query : Option String
  fragment : Option String
  deriving DecidableEq

/-- At least two characters: a letter, then letters, digits, `+`, `-` and `.`. -/
def isScheme (cs : List Char) : Bool :=
  match cs with
  | c :: d :: rest =>
    c.isAlpha && (d :: rest).all fun c => c.isAlphanum || c == '+' || c == '-' || c == '.'
  | _ => false

namespace Address

def cutScheme (cs : List Char) : List Char × List Char :=
  match cutAt ':' cs with
  | some (scheme, rest) => if isScheme scheme then (scheme, rest) else ([], cs)
  | none => ([], cs)

/-- The authority between `//` and the next slash, and the path. -/
def cutAuthority (cs : List Char) : List Char × List Char :=
  match dropHead? ['/', '/'] cs with
  | some rest => (rest.takeWhile (· != '/'), rest.dropWhile (· != '/'))
  | none => ([], cs)

/-- The parts of a target. Without a scheme a question mark is part of the path. -/
def split (target : String) : Address :=
  let (scheme, rest) := cutScheme target.toList
  let (rest, fragment) := cutOptional '#' rest
  let (rest, query) := if scheme.isEmpty then (rest, none) else cutOptional '?' rest
  let (authority, path) := cutAuthority rest
  ⟨String.ofList scheme, String.ofList authority, String.ofList path, query.map String.ofList,
    fragment.map String.ofList⟩

def withPath (a : Address) (path : String) : String :=
  (if a.scheme.isEmpty then "" else a.scheme ++ ":")
    ++ (if a.authority.isEmpty && a.scheme != "file" then "" else "//" ++ a.authority)
    ++ (if !a.authority.isEmpty && !path.isEmpty && !Path.isAbsolute path then "/" else "")
    ++ path
    ++ (match a.query with | some q => "?" ++ q | none => "")
    ++ (match a.fragment with | some f => "#" ++ f | none => "")

def scheme? (a : Address) : Option String :=
  if a.scheme.isEmpty then none else some (toLowerAscii a.scheme)

end Address

def Target.scheme? (target : String) : Option String := (Address.split target).scheme?

/-! ## Base directories -/

/-- What relative targets are joined to: a fixed directory, or one that is asked for each time. -/
inductive BaseDir (m : Type → Type) where
  | fixed (path : String)
  | provided (ask : m String)

def BaseDir.current {m : Type → Type} [Monad m] : BaseDir m → m String
  | .fixed path => pure path
  | .provided ask => ask

/-- A fixed directory, after its variables and home directory are expanded. -/
def BaseDir.expanded {m : Type → Type} (env : Environment) (path : String) :
    Except Environment.Unset (BaseDir m) :=
  (env.expand path).map .fixed

/-! ## Resolution -/

/-- A target below its base directory, with the protocol that it named before. -/
structure Resolved where
  scheme : Option String
  path : String
  deriving DecidableEq

/-- What to do with a resolved target. -/
inductive Route where
  | remoteGlob
  | remoteSingle
  | localGlob
  | localSingle
  deriving DecidableEq

def Route.name : Route → String
  | remoteGlob => "remote glob"
  | remoteSingle => "remote single"
  | localGlob => "local glob"
  | localSingle => "local single"

def Route.isMulti : Route → Bool
  | remoteGlob => true
  | localGlob => true
  | _ => false

/-- Remote when a protocol was named, and a pattern when a wildcard is left in the path. -/
def Resolved.route (r : Resolved) : Route :=
  match r.scheme.isSome, Path.hasWildcard r.path with
  | true, true => .remoteGlob
  | true, false => .remoteSingle
  | false, true => .localGlob
  | false, false => .localSingle

/-- A target below a base directory. With a protocol only the path is joined. -/
def Target.resolve (target : String) (base : Option String) : Resolved :=
  let a := Address.split target
  match base with
  | none => ⟨a.scheme?, target⟩
  | some dir =>
    if a.scheme?.isSome then ⟨a.scheme?, a.withPath (Path.toSlashes (Path.append dir a.path))⟩
    else ⟨a.scheme?, Path.toSlashes (Path.append dir target)⟩

end Transclusion
