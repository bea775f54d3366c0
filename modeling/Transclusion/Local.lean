import Transclusion.Backend
import Transclusion.Disk.Basic
import Transclusion.Glob.Root
import Transclusion.Includer.Resolve
import Transclusion.OpenOptions

/-!
# Files on a disk

* `Local.matchesBelow` : the files below a directory that match a pattern;
* `Local.glob`, `Local.openOne` : listing and opening;
* `Local.backend` : the backend of a disk.

Paths may have `file://` in front of them.
-/

namespace Transclusion
namespace Local

variable {m : Type → Type} [Monad m]

/-- The path without `file://` in front. -/
def plainPath (path : String) : String :=
  match Text.dropHead? "file://".toList path.toList with
  | some rest => String.ofList rest
  | none => path

def joinNames (names : List String) : String := Path.toSlashes (Glob.joinSegments names)

/-- The files below a directory that match a pattern, by their paths from there. A directory that
is not there has none. -/
def matchesBelow (disk : Disk m) (pattern : Glob.Matcher) (base : String) (limit : Option Nat) :
    Run m (List String) := do
  match ← (disk.filesBelow base limit : m (Except IoFault (List (List String)))) with
  | .ok found => return (found.map joinNames).filter pattern.accepts
  | .error f => if f.kind = .notFound then return [] else Run.raise (.io "listing" base f)

/-- The directory that the root of a pattern names. -/
def rootDirectory (root : List String) : String :=
  if root.isEmpty then "."
  else
    let path := Glob.joinSegments root
    if path.isEmpty then "/" else path

def below (root : List String) (relative : String) : String :=
  if root.isEmpty then relative else Glob.joinSegments root ++ "/" ++ relative

def glob (disk : Disk m) (pattern : String) (args : Args) : Run m (List String) := do
  let maxdepth ← Run.ofExcept (Glob.limitOfArgs pattern args)
  let path := plainPath pattern
  let (root, rest) := Glob.splitRoot path
  if rest.isEmpty then
    if ← (disk.isFile path : m Bool) then return [path] else return []
  else
    let p ← Run.ofExcept (Glob.matcher (Glob.joinSegments rest))
    let found ← matchesBelow disk p (rootDirectory root) (Glob.depthLimit rest maxdepth)
    return (found.map (below root)).mergeSort fun a b => a ≤ b

/-- Open a file. Its options are checked before the disk is asked. -/
def openOne (disk : Disk m) (path : String) (args : Args) : Run m Opened := do
  let compression ← Run.ofExcept (OpenOptions.check path args [])
  match ← (disk.openPath (plainPath path) : m (Except IoFault Content)) with
  | .ok content => return ⟨path, compression.unpack path content⟩
  | .error f => Run.raise (.ofIo "opening" path f)

def backend (disk : Disk m) : Backend m := .ofListing (glob disk) (openOne disk)

end Local

/-- The value of a document file, which is opened as it is. -/
def Includer.loadFile {m : Type → Type} [Monad m] (I : Includer m) (disk : Disk m) (path : String) :
    Run m Value := do
  match ← (disk.openPath path : m (Except IoFault Content)) with
  | .ok content => (I.loadContent content).mapFault (Fault.named path)
  | .error f => Run.raise (.ofIo "opening" path f)

end Transclusion
