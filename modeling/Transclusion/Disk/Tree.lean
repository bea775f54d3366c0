import Transclusion.Disk.Basic
import Transclusion.Text.Cut

/-!
# Disks as trees

* `FileTree` : files, directories and links; `FileTree.insert` puts one in its place;
* `FileTree.resolve` : what a path leads to;
* `FileTree.filesBelow` : the regular files below a directory;
* `FileTree.disk` : a tree as a disk, seen from a working directory.
-/

namespace Transclusion

inductive FileTree where
  | file (bytes : ByteArray)
  | dir (entries : List (String × FileTree))
  | link (target : String)
  deriving Inhabited

namespace FileTree

/-! ## Places -/

def child? (name : String) : FileTree → Option FileTree
  | .dir entries => (entries.find? (·.1 == name)).map (·.2)
  | _ => none

/-- The node at the end of names, none of which is a link. -/
def descend? (t : FileTree) : List String → Option FileTree
  | [] => some t
  | name :: rest => (t.child? name).bind fun c => c.descend? rest

def setEntry (name : String) (t : FileTree) : List (String × FileTree) → List (String × FileTree)
  | [] => [(name, t)]
  | (n, old) :: rest => if n = name then (n, t) :: rest else (n, old) :: setEntry name t rest

/-- A tree with a node at the end of names; directories on the way are made. -/
def insert (new : FileTree) : List String → FileTree → FileTree
  | [], old =>
    match new, old with
    | .dir [], .dir entries => .dir entries
    | _, _ => new
  | name :: rest, old =>
    let entries := match old with
      | .dir entries => entries
      | _ => []
    let under := ((entries.find? (·.1 == name)).map (·.2)).getD (.dir [])
    .dir (setEntry name (insert new rest under) entries)

/-! ## Paths -/

/-- The names of a path, in which `.` and nothing stay where they are. -/
def pieces (path : String) : List String :=
  (Text.splitOn '/' path.toList).map String.ofList

def maxNameLength : Nat := 255

/-- Paths that can be asked for are shorter than this. -/
def maxPathLength : Nat := 4096

def maxLinks : Nat := 40

/-- Whether a link at the end of a path is followed. -/
inductive LastLink where
  | follow
  | keep
  deriving DecidableEq

/-- The place that names lead to from a directory, and the node there. Places are in reverse order.
`links` is how many more links may be followed, and `fuel` bounds the names on the way. -/
def walk (root : FileTree) (last : LastLink) : (fuel links : Nat) → (here : List String) →
    (names : List String) → Except IoFault (List String × FileTree)
  | 0, _, _, _ => .error .linkLoop
  | fuel + 1, links, here, names =>
    match root.descend? here.reverse, names with
    | none, _ => .error .notFound
    | some node, [] => .ok (here, node)
    | some (.dir _), "" :: rest => walk root last fuel links here rest
    | some (.dir _), "." :: rest => walk root last fuel links here rest
    | some (.dir _), ".." :: rest => walk root last fuel links (here.drop 1) rest
    | some (.dir entries), name :: rest =>
      if maxNameLength < name.utf8ByteSize then .error .nameTooLong
      else
        match entries.find? (·.1 == name) with
        | none => .error .notFound
        | some (_, .link target) =>
          if rest.isEmpty && last = .keep then .ok (name :: here, .link target)
          else
            match links with
            | 0 => .error .linkLoop
            | links + 1 =>
              let start := if target.toList.head? == some '/' then [] else here
              walk root last fuel links start (pieces target ++ rest)
        | some _ => walk root last fuel links (name :: here) rest
    | some _, _ :: _ => .error .notADirectory

/-- The place that a path leads to from a working directory, and the node there. -/
def resolve (root : FileTree) (cwd : List String) (last : LastLink) (path : String) :
    Except IoFault (List String × FileTree) :=
  if path.toList.contains (Char.ofNat 0) then .error .nulInName
  else if path.isEmpty then .error .notFound
  else if maxPathLength ≤ path.utf8ByteSize then .error .nameTooLong
  else
    let start := if path.toList.head? == some '/' then [] else cwd.reverse
    walk root last ((maxLinks + 1) * (maxPathLength + 1)) maxLinks start (pieces path)

/-! ## Listing -/

mutual

def filesUnder (limit : Option Nat) (name : String) : FileTree → List (List String)
  | .file _ => [[name]]
  | .dir entries =>
    match limit with
    | none => (filesIn none entries).map (name :: ·)
    | some 0 => []
    | some (n + 1) => (filesIn (some n) entries).map (name :: ·)
  | .link _ => []

/-- The regular files in a directory; `limit` is how many names may follow the first. -/
def filesIn (limit : Option Nat) : List (String × FileTree) → List (List String)
  | [] => []
  | (name, t) :: rest => filesUnder limit name t ++ filesIn limit rest

end

/-- The regular files below a path, each at most `limit` names away and at least one. -/
def filesBelow (root : FileTree) (cwd : List String) (path : String) (limit : Option Nat) :
    Except IoFault (List (List String)) := do
  match ← root.resolve cwd .follow path with
  | (_, .dir entries) => return filesIn (limit.map (· - 1)) entries
  | _ => return []

def disk {m : Type → Type} [Monad m] (root : FileTree) (cwd : List String) : Disk m where
  isFile path := pure (match root.resolve cwd .follow path with
    | .ok (_, .file _) => true
    | _ => false)
  openPath path := pure do
    match ← root.resolve cwd .follow path with
    | (_, .file bytes) => return .ofBytes bytes
    | _ => return .unreadable .isADirectory
  filesBelow path limit := pure (root.filesBelow cwd path limit)

end FileTree
end Transclusion
