import Transclusion.Command.Running

/-!
# The program

* `Machine.disk` : the disk of this machine;
* `Machine.environment` : the variables that are set;
* `main` : the words of the command line, carried out.

Requests are not answered: no server is reached from here.
-/

namespace Transclusion.Machine

/-- The number of an error of the system, which may come negated. -/
def errorNumber (code : UInt32) : Nat := min code.toNat (Nat.pow 2 32 - code.toNat)

def faultOfNumber (number : Nat) (text : String) : IoFault :=
  match number with
  | 2 => .notFound
  | 13 => ⟨.permissionDenied, "Permission denied (os error 13)"⟩
  | 20 => .notADirectory
  | 21 => .isADirectory
  | 36 => .nameTooLong
  | 40 => .linkLoop
  | _ => ⟨.other, text⟩

def faultOf (e : IO.Error) : IoFault :=
  match e with
  | .noFileOrDirectory .. => .notFound
  | .permissionDenied _ code text | .inappropriateType _ code text | .invalidArgument _ code text
  | .resourceExhausted _ code text | .otherError code text => faultOfNumber (errorNumber code) text
  | e => ⟨.other, toString e⟩

def trying {α : Type} (access : IO α) : IO (Except IoFault α) := do
  try return .ok (← access) catch e => return .error (faultOf e)

/-- What a path leads to, taken as a directory. -/
def place (path : String) : IO.FS.DirEntry := ⟨path, "."⟩

partial def filesUnder (limit : Option Nat) (here : IO.FS.DirEntry) : IO (List (List String)) := do
  if limit == some 0 then return []
  let found ← trying here.path.readDir
  let entries := match found with
    | .ok entries => entries.toList
    | .error _ => []
  let below ← entries.mapM fun e => do
    let kind ← trying e.path.symlinkMetadata
    match kind with
    | .error _ => return []
    | .ok data =>
      match data.type with
      | .file => return [[e.fileName]]
      | .dir => return (← filesUnder (limit.map (· - 1)) e).map (e.fileName :: ·)
      | _ => return []
  return below.flatten

def disk : Disk IO where
  isFile path := do
    match ← trying (place path).root.metadata with
    | .ok data => return match data.type with
      | .file => true
      | _ => false
    | .error _ => return false
  openPath path := do
    match ← trying (IO.FS.readBinFile path) with
    | .ok bytes => return .ok (.ofBytes bytes)
    | .error f => return if f.kind = .isADirectory then .ok (.unreadable f) else .error f
  filesBelow path limit := do
    match ← trying (place path).root.metadata with
    | .error f => return if f.kind = .notADirectory then .ok [] else .error f
    | .ok _ => return .ok (← filesUnder (limit.map (max 1)) (place path))

/-- A file of the system, or nothing. -/
def systemText (path : String) : IO (List Char) := do
  match ← trying (IO.FS.readFile path) with
  | .ok text => return text.toList
  | .error _ => return []

def userNumber? (status : List Char) : Option (List Char) :=
  (Text.splitOn '\n' status).findSome? fun line => match Text.splitOn '\t' line with
    | ['U', 'i', 'd', ':'] :: number :: _ => some number
    | _ => none

def homeOf? (accounts user : List Char) : Option String :=
  (Text.splitOn '\n' accounts).findSome? fun line => match Text.splitOn ':' line with
    | _ :: _ :: number :: _ :: _ :: home :: _ => if number = user then some (String.ofList home) else none
    | _ => none

def environment : IO Environment := do
  let bindings := (Text.splitOn (Char.ofNat 0) (← systemText "/proc/self/environ")).filterMap fun line =>
    (Text.cutAt '=' line).map fun (name, value) => (String.ofList name, String.ofList value)
  let user := userNumber? (← systemText "/proc/self/status")
  let accounts ← systemText "/etc/passwd"
  return { bindings, accountHome := user.bind (homeOf? accounts) }

def input : IO Content := do
  match ← trying (do (← IO.getStdin).readBinToEnd) with
  | .ok bytes => return .ofBytes bytes
  | .error f => return .unreadable f

end Transclusion.Machine

open Transclusion in
def main (args : List String) : IO UInt32 := do
  let o ← Outcome.ofArgs Regex.engine (← Machine.environment) Machine.disk .unreachable Machine.input args
  (← IO.getStdout).putStr o.output
  (← IO.getStderr).putStr o.errors
  return o.code.toUInt32
