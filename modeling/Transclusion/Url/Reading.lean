import Transclusion.Text.Lower
import Transclusion.Url.Basic
import Transclusion.Url.Host

/-!
# Reading URLs

* `Url.ofText?` : a URL by its text, in its normal form;
* `Url.join?` : a link on a page.

Reading lowers the case of scheme and host, drops the standard port, resolves the segments `.` and
`..`, and percent-encodes what a part may not hold as it is. White space around the text and tabs
and line breaks inside it are passed over.
-/

namespace Transclusion.Url

open Text

/-! ## Parts of the text -/

/-- White space and control characters around a URL. -/
def isOuter (c : Char) : Bool := c.toNat ≤ 0x20

def cleaned (cs : List Char) : List Char :=
  (((cs.dropWhile isOuter).reverse.dropWhile isOuter).reverse).filter fun c =>
    !(c == '\t' || c == '\n' || c == '\r')

def isSchemeChar (c : Char) : Bool := c.isAlphanum || c == '+' || c == '-' || c == '.'

def cutScheme? (cs : List Char) : Option (String × List Char) := do
  let (scheme, rest) ← cutAt ':' cs
  if (scheme.head?.any Char.isAlpha) && scheme.all isSchemeChar then
    return (String.ofList (scheme.map Char.toLower), rest)
  else none

/-- A slash, or what counts as one. -/
def isSlash (special : Bool) (c : Char) : Bool := c == '/' || (special && c == '\\')

/-- A character that ends host and port. -/
def endsAuthority (special : Bool) (c : Char) : Bool := isSlash special c || c == '?' || c == '#'

/-! ## Paths -/

def points : List (List Char) → List (List Char) := fun l =>
  l.flatMap fun s => [s ++ ['.'], s ++ ['%', '2', 'e'], s ++ ['%', '2', 'E']]

/-- A segment that stays where it is. -/
def isHere (segment : List Char) : Bool := (points [[]]).contains segment

/-- A segment that leads out of a directory. -/
def isUp (segment : List Char) : Bool := (points (points [[]])).contains segment

def pieces (special : Bool) (cs : List Char) : List (List Char) :=
  splitOn '/' (cs.map fun c => if isSlash special c then '/' else c)

/-- Put segments after those in `done`, which is reversed. -/
def place : (done : List (List Char)) → List (List Char) → List (List Char)
  | done, [] => done.reverse
  | done, [last] =>
    if isUp last then ([] :: done.tail).reverse
    else if isHere last then ([] :: done).reverse
    else (Percent.encode Percent.inPath last :: done).reverse
  | done, s :: rest =>
    if isUp s then place done.tail rest
    else if isHere s then place done rest
    else place (Percent.encode Percent.inPath s :: done) rest

def rooted (segments : List (List Char)) : String := String.ofList ('/' :: joinWith '/' segments)

/-- The segments of a path up to its last slash, the last first. -/
def directory (path : String) : List (List Char) := (splitOn '/' (path.toList.drop 1)).reverse.tail

/-! ## Query and fragment -/

/-- The path, the query and the fragment of what follows the host. -/
def cutTail (cs : List Char) : List Char × Option (List Char) × Option (List Char) :=
  let (rest, fragment) := cutOptional '#' cs
  let (path, query) := cutOptional '?' rest
  (path, query, fragment)

def queryText (scheme : String) (q : List Char) : String :=
  String.ofList (Percent.encode (if isSpecial scheme then Percent.inHostQuery else Percent.inQuery) q)

def fragmentText (f : List Char) : String := String.ofList (Percent.encode Percent.inFragment f)

/-- A URL with the path that begins behind a slash, below the directory `start`. -/
def withTail (scheme : String) (authority : Option String) (start : List (List Char)) (cs : List Char) : Url :=
  let (path, query, fragment) := cutTail cs
  ⟨scheme, authority, rooted (place start (pieces (isSpecial scheme) path)),
    query.map (queryText scheme), fragment.map fragmentText⟩

/-! ## User, host and port -/

def cutUser (cs : List Char) : List Char × List Char :=
  if cs.contains '@' then
    let host := (cs.reverse.takeWhile (· != '@')).reverse
    (cs.take (cs.length - host.length - 1), host)
  else ([], cs)

/-- User and password in front of the host. -/
def userText (cs : List Char) : List Char :=
  let (user, password) := cutOptional ':' cs
  let user := Percent.encode Percent.inUser user
  let password := Percent.encode Percent.inUser (password.getD [])
  if user.isEmpty && password.isEmpty then []
  else user ++ (if password.isEmpty then [] else ':' :: password) ++ ['@']

/-- The host, and the port after its colon. Colons between brackets belong to the host. -/
def cutPort (cs : List Char) : List Char × List Char :=
  match cs with
  | '[' :: _ =>
    let host := cs.takeWhile (· != ']')
    let rest := cs.drop host.length
    (host ++ rest.take 1, (rest.drop 1).drop (if rest[1]? == some ':' then 1 else 0))
  | _ => ((cutOptional ':' cs).1, ((cutOptional ':' cs).2).getD [])

def host? (scheme : String) (cs : List Char) : Option (List Char) :=
  if cs.head? == some '[' then Host.bracketed? cs
  else if isSpecial scheme then Host.domain? cs
  else Host.verbatim? cs

def authority? (scheme : String) (cs : List Char) : Option String := do
  let (user, hostPort) := cutUser cs
  let (host, port) := cutPort hostPort
  if host.isEmpty && (isSpecial scheme || !user.isEmpty || !port.isEmpty) then none
  else
    let host ← host? scheme host
    let port ← Host.port? (defaultPort? scheme) port
    return String.ofList (userText user ++ host ++ port)

/-! ## URLs -/

def atHost? (scheme : String) (cs : List Char) : Option Url := do
  let special := isSpecial scheme
  let authority ← authority? scheme (cs.takeWhile fun c => !endsAuthority special c)
  let rest := cs.dropWhile fun c => !endsAuthority special c
  let isBare := !(rest.head?.any (isSlash special))
  let u := withTail scheme (some authority) [] (if isBare then rest else rest.drop 1)
  return if isBare && !special then { u with path := "" } else u

/-- A URL of a file. A host after two slashes is kept, unless it is this very machine. -/
def ofFile? (cs : List Char) : Option Url := do
  let slashes := (cs.take 2).takeWhile (isSlash true)
  let rest := cs.drop slashes.length
  if slashes.length < 2 then return withTail fileScheme (some "") [] rest
  else
    let host := rest.takeWhile fun c => !endsAuthority true c
    let after := rest.dropWhile fun c => !endsAuthority true c
    let path := if after.head?.any (isSlash true) then after.drop 1 else after
    if host.isEmpty then return withTail fileScheme (some "") [] path
    else
      let name ← host? fileScheme host
      return withTail fileScheme (some (if name == "localhost".toList then "" else String.ofList name)) [] path

def unrooted (scheme : String) (cs : List Char) : Url :=
  let (path, query, fragment) := cutTail cs
  ⟨scheme, none, String.ofList (Percent.encode Percent.isPlain path),
    query.map (queryText scheme), fragment.map fragmentText⟩

def afterScheme? (scheme : String) (cs : List Char) : Option Url :=
  if scheme == fileScheme then ofFile? cs
  else if isSpecial scheme then atHost? scheme (cs.dropWhile (isSlash true))
  else match cs with
    | '/' :: '/' :: rest => atHost? scheme rest
    | '/' :: rest => some (withTail scheme none [] rest)
    | _ => some (unrooted scheme cs)

def ofText? (text : String) : Option Url := do
  let (scheme, rest) ← cutScheme? (cleaned text.toList)
  afterScheme? scheme rest

/-- A link without a scheme, on a page that has a host. -/
def relative? (page : Url) (cs : List Char) : Option Url :=
  let special := isSpecial page.scheme
  match cs with
  | [] => some { page with fragment := none }
  | c :: rest =>
    if isSlash special c then
      if rest.head?.any (isSlash special) then
        atHost? page.scheme (if special then rest.dropWhile (isSlash true) else rest.drop 1)
      else some (withTail page.scheme page.authority [] rest)
    else if c == '?' then
      let (_, query, fragment) := cutTail cs
      some { page with query := query.map (queryText page.scheme), fragment := fragment.map fragmentText }
    else if c == '#' then some { page with fragment := some (fragmentText rest) }
    else some (withTail page.scheme page.authority (directory page.path) cs)

/-- A link on a page that has a host. -/
def join? (page : Url) (link : String) : Option Url :=
  let cs := cleaned link.toList
  match cutScheme? cs with
  | some (scheme, rest) =>
    if scheme == page.scheme && (isSpecial scheme) && ((rest.take 2).takeWhile (isSlash true)).length < 2 then
      relative? page rest
    else afterScheme? scheme rest
  | none => relative? page cs

end Transclusion.Url
