/-!
# URLs

* `Url` : the parts of a URL in their normal form; `Url.text` : the URL itself;
* `Url.plain` : without query and fragment;
* `Url.isSpecial` : its scheme is one whose URLs have a host and a path of segments.
-/

namespace Transclusion

structure Url where
  /-- In lower case. -/
  scheme : String
  /-- User, host and port, where the URL has a host. -/
  authority : Option String
  /-- From a slash on, unless the URL names something that is in no hierarchy. -/
  path : String
  query : Option String := none
  fragment : Option String := none
  deriving DecidableEq, Inhabited

namespace Url

def text (u : Url) : String :=
  u.scheme ++ ":"
    ++ (match u.authority with
      | some a => "//" ++ a
      | none => if ['/', '/'].isPrefixOf u.path.toList then "/." else "")
    ++ u.path
    ++ (match u.query with | some q => "?" ++ q | none => "")
    ++ (match u.fragment with | some f => "#" ++ f | none => "")

def plain (u : Url) : Url := { u with query := none, fragment := none }

/-- Schemes whose URLs have a host, with the port that goes without saying. -/
def hostSchemes : List (String × Nat) :=
  [("http", 80), ("https", 443), ("ws", 80), ("wss", 443), ("ftp", 21)]

/-- The scheme of files on a host, or on none. -/
def fileScheme : String := "file"

def defaultPort? (scheme : String) : Option Nat := (hostSchemes.find? (·.1 == scheme)).map (·.2)

/-- A backslash counts as a slash in URLs of this scheme. -/
def isSpecial (scheme : String) : Bool := (defaultPort? scheme).isSome || scheme == fileScheme

def isWeb (u : Url) : Bool := u.scheme == "http" || u.scheme == "https"

end Url
end Transclusion
