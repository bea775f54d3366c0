import Transclusion.Content

/-!
# Disks

* `Disk` : the three things that are asked of a disk.
-/

namespace Transclusion

/-- Access to a disk. Links are followed wherever a path leads through them. -/
structure Disk (m : Type → Type) where
  /-- A path leads to a regular file. -/
  isFile : String → m Bool
  /-- Open what a path leads to. A directory can be opened but not read. -/
  openPath : String → m (Except IoFault Content)
  /-- The regular files below a path, each by the names that lead to it from there, at most so many
  as the limit says and at least one. Below the path links are neither listed nor followed, and
  directories that cannot be read are passed over. What is no directory has no files below it. -/
  filesBelow : String → (limit : Option Nat) → m (Except IoFault (List (List String)))

end Transclusion
