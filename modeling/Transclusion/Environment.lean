import Transclusion.Text.Cut
import Transclusion.Text.Letter

/-!
# Environment variables in paths

* `Environment` : the variables that are set, and the home directory of the account;
* `Environment.home?` : the home directory that counts;
* `Environment.expandVariables` : `$NAME`, `${NAME}`, `${NAME:-default}` and `$$`;
* `Environment.expand` : variables first, then a leading `~` of the text as it was given.
-/

namespace Transclusion

/-- What paths are expanded with. -/
structure Environment where
  /-- The variables that are set. -/
  bindings : List (String × String)
  /-- The home directory of the account that the program runs under. -/
  accountHome : Option String := none

namespace Environment

open Text

def get? (env : Environment) (name : String) : Option String :=
  (env.bindings.find? (·.1 == name)).map (·.2)

/-- The home directory: that of the account where the variable tells of none. -/
def home? (env : Environment) : Option String :=
  (env.get? "HOME" |>.filter (!·.isEmpty)) <|> (env.accountHome.filter (!·.isEmpty))

structure Unset where
  name : String
  deriving DecidableEq, Inhabited

def Unset.message (u : Unset) : String :=
  "error looking key '" ++ u.name ++ "' up: environment variable not found"

def isNameChar (c : Char) : Bool := isLetterOrNumber c || c == '_'

/-- The part before `:-`, and the default after it. -/
def cutDefault : List Char → List Char × Option (List Char)
  | [] => ([], none)
  | ':' :: '-' :: rest => ([], some rest)
  | c :: rest => (c :: (cutDefault rest).1, (cutDefault rest).2)

/-- The name in braces, and its default. Without a name in front of it there is no default. -/
def nameAndDefault (body : List Char) : List Char × Option (List Char) :=
  match cutDefault body with
  | ([], some _) => (body, none)
  | found => found

def lookup (env : Environment) (name : List Char) (default : Option (List Char)) :
    Except Unset (List Char) :=
  match env.get? (String.ofList name), default with
  | some v, _ => .ok v.toList
  | none, some d => .ok d
  | none, none => .error ⟨String.ofList name⟩

/-- What stands for the dollar sign at the start of a text, and what follows it. -/
def expandDollar (env : Environment) (rest : List Char) : Except Unset (List Char × List Char) :=
  match rest with
  | '\x7b' :: inner =>
    match cutAt '\x7d' inner with
    | some (body, after) => do
      let (name, default) := nameAndDefault body
      return (← env.lookup name default, after)
    | none => .ok (['$', '\x7b'], inner)
  | '$' :: after => .ok (['$'], after)
  | c :: _ =>
    if isNameChar c then do
      return (← env.lookup (rest.takeWhile isNameChar) none, rest.dropWhile isNameChar)
    else .ok (['$'], rest)
  | [] => .ok (['$'], [])

def expandFrom (env : Environment) : Nat → List Char → Except Unset (List Char)
  | 0, cs => .ok cs
  | _ + 1, [] => .ok []
  | fuel + 1, c :: rest =>
    if c == '$' then do
      let (value, after) ← env.expandDollar rest
      return value ++ (← env.expandFrom fuel after)
    else return c :: (← env.expandFrom fuel rest)

def expandVariables (env : Environment) (text : String) : Except Unset String :=
  (env.expandFrom (text.length + 1) text.toList).map String.ofList

def expandHome (env : Environment) (text : String) : String :=
  match text.toList with
  | '~' :: rest =>
    if rest.isEmpty || rest.head? == some '/' then
      match env.home? with
      | some h => h ++ String.ofList rest
      | none => text
    else text
  | _ => text

/-- Variables, then the home directory; a `~` that only a variable brought in stays. -/
def expand (env : Environment) (text : String) : Except Unset String := do
  let expanded ← env.expandVariables text
  if text.toList.head? == some '~' then return env.expandHome expanded
  return expanded

end Environment
end Transclusion
