import Transclusion.Memory
import Transclusion.Proofs.Listings.Local

/-!
# Paths in memory

Files in memory are kept in the order of their paths, one for each path. A pattern is matched against each path as a
whole.

* `Memory.pairwise_files`, `Memory.mem_files` : the paths, in ascending order;
* `Memory.matching`, `Memory.glob_of_compile` : the paths that a pattern lists;
* `Memory.matching_literal` : at most one, if the pattern stands for one text.
-/

namespace Transclusion

namespace Memory

/-- Files of which none has the path of a later one. -/
def kept (files : List (String × String)) : List (String × String) :=
  files.foldr (fun f rest => if rest.any (·.1 == f.1) then rest else f :: rest) []

section
variable {files : List (String × String)} {path pattern : String}

theorem kept_cons (f : String × String) (files : List (String × String)) :
    kept (f :: files) = if f.1 ∈ (kept files).map (·.1) then kept files else f :: kept files := by
  have hmem : (kept files).any (·.1 == f.1) = decide (f.1 ∈ (kept files).map (·.1)) := by
    rw [Bool.eq_iff_iff]
    simp
  rw [kept, List.foldr_cons]
  change (if (kept files).any _ then _ else _) = _
  rw [hmem]
  simp only [decide_eq_true_eq]
  rfl

theorem mem_kept : path ∈ (kept files).map (·.1) ↔ path ∈ files.map (·.1) := by
  induction files with
  | nil => rfl
  | cons f files ih =>
    rw [kept_cons, List.map_cons, List.mem_cons, ← ih]
    split
    · rename_i hmem
      rw [or_iff_right_of_imp]
      rintro rfl
      exact hmem
    · rw [List.map_cons, List.mem_cons]

theorem nodup_kept (files : List (String × String)) : ((kept files).map (·.1)).Nodup := by
  induction files with
  | nil => exact List.nodup_nil
  | cons f files ih =>
    rw [kept_cons]
    split
    · exact ih
    · rename_i hmem
      exact List.nodup_cons.mpr ⟨hmem, ih⟩

theorem map_files (files : List (String × String)) :
    (ofList files).files.map (·.1) = ((kept files).map (·.1)).mergeSort fun a b => a ≤ b :=
  List.map_mergeSort fun _ _ _ _ => rfl

theorem pairwise_files (files : List (String × String)) : ((ofList files).files.map (·.1)).Pairwise (· < ·) := by
  rw [map_files]
  exact (Local.pairwise_bytes_mergeSort (nodup_kept files)).imp fun h => Text.bytes_lt_bytes_iff.mp h

theorem mem_files : path ∈ (ofList files).files.map (·.1) ↔ path ∈ files.map (·.1) := by
  rw [map_files, List.mem_mergeSort, mem_kept]

def matching (files : List (String × String)) (ps : List Glob.Piece) : List String :=
  ((ofList files).files.map (·.1)).filter fun path => Glob.accepts ps path.toList

theorem mem_matching {ps : List Glob.Piece} :
    path ∈ matching files ps ↔ path ∈ files.map (·.1) ∧ Glob.accepts ps path.toList = true := by
  rw [matching, List.mem_filter, mem_files]

theorem pairwise_matching (files : List (String × String)) (ps : List Glob.Piece) :
    (matching files ps).Pairwise (· < ·) :=
  (pairwise_files files).filter _

theorem matching_nil (ps : List Glob.Piece) : matching [] ps = [] :=
  List.eq_nil_iff_forall_not_mem.mpr fun _ hpath => List.not_mem_nil (mem_matching.mp hpath).1

theorem matching_literal {ps : List Glob.Piece} (h : ∀ cs, Glob.accepts ps cs = true ↔ cs = pattern.toList) :
    matching files ps = if pattern ∈ files.map (·.1) then [pattern] else [] := by
  have hmem : ∀ path, path ∈ matching files ps ↔ path ∈ files.map (·.1) ∧ path = pattern := by
    intro path
    rw [mem_matching, h, String.toList_inj]
  split
  · rename_i hin
    refine Text.eq_of_pairwise_lt (pairwise_matching files ps) (List.pairwise_singleton _ _) fun path => ?_
    rw [hmem, List.mem_singleton, and_iff_right_of_imp]
    rintro rfl
    exact hin
  · rename_i hout
    refine List.eq_nil_iff_forall_not_mem.mpr fun path hpath => ?_
    obtain ⟨hin, rfl⟩ := (hmem path).mp hpath
    exact hout hin

variable {m : Type → Type} [Monad m] {args : Args}

theorem glob_of_compile {ps : List Glob.Piece} (h : Glob.compile pattern = .ok ps) :
    (ofList files).backend.glob pattern args = (pure (matching files ps) : Run m _) := by
  change Run.ofExcept ((ofList files).paths pattern) = _
  rw [paths, Glob.Matcher.ofText, h]
  rfl

theorem glob_of_compile_error {f : Glob.Fault} (h : Glob.compile pattern = .error f) :
    (ofList files).backend.glob pattern args = (Run.raise (.config (.globPattern pattern f)) : Run m _) := by
  change Run.ofExcept ((ofList files).paths pattern) = _
  rw [paths, Glob.Matcher.ofText, h]
  rfl

end

end Memory

end Transclusion
