import Transclusion.Text.Cut

/-!
# Paths

* `Path.append` : a path below a directory; an absolute path takes its place;
* `Path.toSlashes` : every backslash as a slash;
* `Path.hasWildcard` : one of `*`, `?`, `[`, `]` is in it;
* `Path.parent?` : the directory that a path is in, as the path spells it.
-/

namespace Transclusion.Path

open Text

def isAbsolute (p : String) : Bool := p.toList.head? == some '/'

/-- `path` below `base`: a slash goes between them where there is none. -/
def append (base path : String) : String :=
  if isAbsolute path then path
  else if base.isEmpty || base.toList.getLast? == some '/' then base ++ path
  else base ++ "/" ++ path

def toSlashes (p : String) : String := p.map fun c => if c = '\\' then '/' else c

def isWildcard (c : Char) : Bool := c == '*' || c == '?' || c == '[' || c == ']'

def hasWildcard (p : String) : Bool := p.toList.any isWildcard

/-- A piece between slashes that names nothing. -/
def isVoid (piece : List Char) : Bool := piece.isEmpty || piece == ['.']

/-- What precedes the names of a path: the root, or a leading dot. -/
def stem (cs : List Char) : List Char :=
  match cs with
  | '/' :: _ => ['/']
  | ['.'] => ['.']
  | '.' :: '/' :: _ => ['.']
  | _ => []

/-- The path without its last name; a path without names has the empty one, the root none. -/
def parent? (p : String) : Option String :=
  let cs := p.toList
  let head := stem cs
  let pieces := (splitOn '/' (cs.drop head.length)).reverse.dropWhile isVoid
  match pieces with
  | [] => if head == ['.'] then some "" else none
  | _ :: before =>
    some (String.ofList (head ++ joinWith '/' (before.dropWhile isVoid).reverse))

theorem append_of_isAbsolute {base path : String} (h : isAbsolute path = true) :
    append base path = path := by simp [append, h]

/-- Where there are no backslashes there is nothing to change. -/
theorem toSlashes_of_not_mem {s : String} (h : '\\' ∉ s.toList) : toSlashes s = s := by
  apply String.ext
  rw [toSlashes, String.toList_map]
  refine (List.map_congr_left fun c hc => ?_).trans (List.map_id _)
  have hne : c ≠ '\\' := by
    rintro rfl
    exact h hc
  rw [if_neg hne, id]

end Transclusion.Path
