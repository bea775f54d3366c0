import Transclusion.Proofs.Listings.Lookups
import Transclusion.Proofs.Listings.Mirror
import Transclusion.Proofs.Listings.Rooted
import Transclusion.Proofs.Listings.Spelling
import Transclusion.Proofs.Listings.Stored

/-!
# Files in memory and on a disk

In memory the whole pattern is matched against the whole path of each file. On a disk the root of the pattern is looked
up, and the rest of the pattern is matched against the paths from there on.

* `Local.listing_eq_matching` : below a directory the rest of a pattern lists what the whole pattern lists in memory;
* `Memory.glob_below_root`, `Memory.glob_path` : the two listings of a pattern with wildcards, and of one without;
* `Memory.glob_as_directory` : files in memory are listed as those of a directory, but for what is not looked up there;
* `Memory.glob_long_name`, `Memory.glob_long_path` : names and paths that are too long for the disk.
-/

namespace Transclusion

open Glob (joinSegments)

/-! ## Directories of given files -/

namespace Local

section
variable {entries inner : List (String × FileTree)} {files : List (String × String)} {pattern : String}
  {root rest : List String}

theorem below_joinSegments (root : List String) {names : List String} (hne : names ≠ []) :
    below root (joinSegments names) = joinSegments (root ++ names) := by
  unfold below
  split
  · rename_i hempty
    rw [List.isEmpty_iff.mp hempty, List.nil_append]
  · rename_i hempty
    rw [joinSegments_append (by simpa using hempty) hne]

/-- Below a directory that the root leads to, the rest of a pattern lists what the whole pattern lists in memory. -/
theorem listing_eq_matching (hholds : (FileTree.dir entries).Holds (files.map (·.1)))
    (hdir : (FileTree.dir entries).descend? root = some (.dir inner)) (hrest : rest ≠ [])
    (hsegments : ∀ s ∈ rest, '/' ∉ s.toList) {p : Glob.Matcher} {ps : List Glob.Piece}
    (hcompiles : Glob.Matcher.ofText (joinSegments rest) = .ok p) (hextends : Glob.Extends root ps p.pieces) :
    (listing p ((Glob.depthLimit rest none).map (· - 1)) inner).map (below root) = Memory.matching files ps := by
  have htidy : (FileTree.dir inner).Tidy plainName := (hholds.tidy.descend? hdir).1.mono fun _ h => h.plainName
  have hdown : ∀ names, (FileTree.dir entries).descend? (root ++ names) = (FileTree.dir inner).descend? names := by
    intro names
    rw [FileTree.descend?_append, hdir]
    rfl
  refine Text.eq_of_pairwise_lt ?_ (Memory.pairwise_matching files ps) fun path => ?_
  · exact List.pairwise_map.mpr ((pairwise_listing htidy p _).imp (below_lt_below_iff root).mpr)
  rw [List.mem_map, Memory.mem_matching]
  constructor
  · rintro ⟨relative, hrelative, rfl⟩
    obtain ⟨names, hnames, haccepts, rfl⟩ := (mem_listing htidy).mp hrelative
    obtain ⟨⟨bytes, hfile⟩, -⟩ := htidy.mem_filesIn.mp hnames
    have hne := FileTree.ne_nil_of_descend?_file hfile
    rw [← hdown] at hfile
    have hfree : ∀ name ∈ root ++ names, '/' ∉ name.toList := fun name hname =>
      ((hholds.tidy.descend? hfile).2 name hname).1.2.1
    rw [below_joinSegments root hne]
    exact ⟨(hholds.files _).mpr ⟨_, bytes, hfile, rfl⟩,
      (hextends _ (by simp [hne]) hfree).mpr ⟨names, hne, rfl, haccepts⟩⟩
  · rintro ⟨hpath, haccepts⟩
    obtain ⟨names, bytes, hfile, rfl, -, hne, hnames⟩ := hholds.exists_names hpath
    obtain ⟨more, hmore, rfl, hmatched⟩ := (hextends names hne fun name hname => (hnames name hname).1.2.1).mp haccepts
    rw [hdown] at hfile
    have hplain := (htidy.descend? hfile).2
    refine ⟨joinSegments more, (mem_listing htidy).mpr ⟨more, ?_, hmatched, rfl⟩, below_joinSegments root hmore⟩
    refine htidy.mem_filesIn.mpr ⟨⟨bytes, hfile⟩, ?_⟩
    exact (near_depthLimit_iff none hrest hsegments hcompiles hmore hplain hmatched).mpr fun _ _ hd => by cases hd

end

end Local

/-! ## Memory and disk -/

namespace Memory

open FileTree (maxPathLength)

variable {entries : List (String × FileTree)} {pattern : String} {root rest : List String}

/-- The segments of a root, none of which is special or goes on from a file in memory, are looked up one by one. -/
theorem lookedUp_root {paths : List String} (hholds : (FileTree.dir entries).Holds paths)
    (hsplit : Glob.splitRoot pattern = (root, rest)) (hne : root ≠ []) (hroot : ∀ name ∈ root, name ∉ ["", ".", ".."])
    (hthrough : ∀ before after, root = before ++ after → after ≠ [] → joinSegments before ∉ paths) :
    (FileTree.dir entries).LookedUp root := by
  refine ⟨hne, fun name hname => ⟨hroot name hname, (Glob.mem_root hsplit hname).1⟩, ?_⟩
  rintro before after bytes hbefore hfile
  by_contra hafter
  exact hthrough before after hbefore hafter ((hholds.files _).mpr ⟨before, bytes, hfile, rfl⟩)

theorem matching_eq_nil {files : List (String × String)} {ps qs : List Glob.Piece}
    (hholds : (FileTree.dir entries).Holds (files.map (·.1))) (hextends : Glob.Extends root ps qs)
    (hroot : ∀ inner, (FileTree.dir entries).descend? root ≠ some (.dir inner)) : matching files ps = [] := by
  refine List.eq_nil_iff_forall_not_mem.mpr fun path hpath => ?_
  obtain ⟨hmem, haccepts⟩ := mem_matching.mp hpath
  obtain ⟨names, bytes, hfile, rfl, -, hne, hnames⟩ := hholds.exists_names hmem
  obtain ⟨more, hmore, rfl, -⟩ := (hextends names hne fun name hname => (hnames name hname).1.2.1).mp haccepts
  rw [FileTree.descend?_append] at hfile
  obtain ⟨u, hu, hfile⟩ := Option.bind_eq_some_iff.mp hfile
  obtain ⟨name, more, rfl⟩ := List.exists_cons_of_ne_nil hmore
  cases u with
  | dir inner => exact hroot inner hu
  | file | link => cases hfile

/-- Below a root, a pattern that is one lists the files in memory that it matches, unless the root is refused. -/
theorem glob_below_root {files : List (String × String)} {t : FileTree} {cwd : List String} {qs : List Glob.Piece}
    (hcwd : t.descend? cwd = some (.dir entries)) (hholds : (FileTree.dir entries).Holds (files.map (·.1)))
    (hsplit : Glob.splitRoot (Local.plainPath pattern) = (root, rest)) (hrest : rest ≠ [])
    (hlooked : root ≠ [] → (FileTree.dir entries).LookedUp root) (hcompiles : Glob.compile (joinSegments rest) = .ok qs)
    {ps : List Glob.Piece} (hextends : Glob.Extends root ps qs) :
    ((FileTree.dir entries).Refuses root →
      ∃ f, Local.glob (m := Id) (t.disk cwd) pattern {} = Run.raise (.io "listing" (joinSegments root) f)) ∧
    (¬ (FileTree.dir entries).Refuses root →
      Local.glob (t.disk cwd) pattern {} = (pure (matching files ps) : Run Id _)) := by
  have hdepth := Glob.limitOfArgs_nothing pattern
  have htext : Glob.Matcher.ofText (joinSegments rest) = .ok ⟨joinSegments rest, qs⟩ := by
    rw [Glob.Matcher.ofText, hcompiles]
    rfl
  have hmatcher : Glob.matcher (joinSegments rest) = .ok ⟨joinSegments rest, qs⟩ := by
    rw [Glob.matcher, htext]
  obtain ⟨hrefused, hresolved⟩ := FileTree.resolve_rootDirectory hcwd hholds.tidy hholds.linkless hlooked
  constructor
  · intro hrefuses
    obtain ⟨hdirectory, f, hf, hkind⟩ := hrefused hrefuses
    refine ⟨f, ?_⟩
    rw [Local.glob_root_error hsplit hrest hdepth hmatcher hf, if_neg hkind, hdirectory]
  intro hrefuses
  have hresolve := hresolved hrefuses
  cases hroot : (FileTree.dir entries).descend? root with
  | none =>
    rw [hroot] at hresolve
    rw [matching_eq_nil hholds hextends (by simp [hroot])]
    exact Local.glob_root_error hsplit hrest hdepth hmatcher hresolve
  | some u =>
    rw [hroot] at hresolve
    cases u with
    | file bytes =>
      rw [matching_eq_nil hholds hextends (by simp [hroot])]
      exact Local.glob_root_file hsplit hrest hdepth hmatcher hresolve
    | link target => cases hholds.linkless.descend? hroot
    | dir inner =>
      rw [Local.glob_directory hsplit hrest hdepth hmatcher hresolve]
      have hsegments : ∀ s ∈ rest, '/' ∉ s.toList := fun s hs => Glob.slash_not_mem_rest hsplit hs
      rw [Local.listing_eq_matching hholds hroot hrest hsegments htext hextends]

theorem glob_path {files : List (String × String)} {t : FileTree} {cwd : List String} {ps : List Glob.Piece}
    (hcwd : t.descend? cwd = some (.dir entries)) (hholds : (FileTree.dir entries).Holds (files.map (·.1)))
    (hplain : Local.plainPath pattern = pattern) (hsplit : Glob.splitRoot pattern = (root, []))
    (hlooked : (FileTree.dir entries).LookedUp root) (hsame : ∀ cs, Glob.accepts ps cs = true ↔ cs = pattern.toList) :
    Local.glob (t.disk cwd) pattern {} =
      (pure ((matching files ps).filter fun path => path.utf8ByteSize < maxPathLength) : Run Id _) := by
  have hpattern : joinSegments root = pattern := by
    simpa using Local.joinSegments_splitRoot hsplit
  have hthere : pattern ∈ files.map (·.1) ↔ ∃ bytes, (FileTree.dir entries).descend? root = some (.file bytes) := by
    rw [← hpattern]
    exact hholds.joinSegments_mem_iff hlooked.nonempty fun name hname => (hlooked.named name hname).2
  have hfile : (∃ place bytes, t.resolve cwd .follow pattern = .ok (place, .file bytes)) ↔
      pattern ∈ files.map (·.1) ∧ pattern.utf8ByteSize < maxPathLength := by
    rw [hthere, ← hpattern, hlooked.resolve_eq_file_iff hcwd hholds.tidy hholds.linkless]
    constructor
    · rintro ⟨hrefuses, hbytes⟩
      exact ⟨hbytes, Nat.not_le.mp fun hlong => hrefuses (.inr (.inl hlong))⟩
    · rintro ⟨⟨bytes, hbytes⟩, hlength⟩
      exact ⟨FileTree.not_refuses_of_file hholds.tidy hbytes hlength, bytes, hbytes⟩
  rw [Local.glob_literal (hplain.symm ▸ hsplit) (Glob.limitOfArgs_nothing _), hplain, matching_literal hsame]
  congr 1
  split
  · rename_i place bytes hresolve
    obtain ⟨hin, hlength⟩ := hfile.mp ⟨place, bytes, hresolve⟩
    simp [hin, hlength]
  · rename_i hnone
    have hout : ¬ (pattern ∈ files.map (·.1) ∧ pattern.utf8ByteSize < maxPathLength) := by
      intro h
      obtain ⟨place, bytes, hresolve⟩ := hfile.mpr h
      exact hnone place bytes hresolve
    symm
    rw [List.filter_eq_nil_iff]
    intro path hpath
    split_ifs at hpath with hin
    · obtain rfl := List.mem_singleton.mp hpath
      simpa using fun hlength => hout ⟨hin, hlength⟩
    · cases hpath

/-- **Files in memory are listed as those of a directory.** A pattern is refused by both, or gives the same paths in the
same order but for two cases: a root that the disk refuses to look up, below which there is a wildcard, is a failure
there and none in memory, and a path that is too long to be looked up is not listed by itself. A directory with such a
path need not be read, so nothing is said of files with too long paths below a root. -/
theorem glob_as_directory (files : List (String × String)) (t : FileTree) (cwd : List String)
    (hcwd : t.descend? cwd = some (.dir entries)) (hholds : (FileTree.dir entries).Holds (files.map (·.1)))
    (hsplit : Glob.splitRoot pattern = (root, rest)) (hroot : ∀ name ∈ root, name ∉ ["", ".", ".."])
    (hthrough : ∀ before after, root = before ++ after → after ≠ [] → joinSegments before ∉ files.map (·.1)) :
    Run.Refused ((ofList files).backend.glob pattern {}) ∧ Run.Refused (Local.glob (t.disk cwd) pattern {}) ∨
      ∃ paths, (ofList files).backend.glob pattern {} = (pure paths : Run Id _) ∧
        (rest ≠ [] → (FileTree.dir entries).Refuses root →
          ∃ f, Local.glob (m := Id) (t.disk cwd) pattern {} = Run.raise (.io "listing" (joinSegments root) f)) ∧
        (rest ≠ [] → ¬ (FileTree.dir entries).Refuses root → (∀ path ∈ paths, path.utf8ByteSize < maxPathLength) →
          Local.glob (t.disk cwd) pattern {} = (pure paths : Run Id _)) ∧
        (rest = [] → Local.glob (t.disk cwd) pattern {} =
          (pure (paths.filter fun path => path.utf8ByteSize < maxPathLength) : Run Id _)) := by
  have hplain : Local.plainPath pattern = pattern :=
    Local.plainPath_of_root hsplit fun hempty => hroot "" hempty (by decide)
  have hlooked : root ≠ [] → (FileTree.dir entries).LookedUp root := fun hne =>
    lookedUp_root hholds hsplit hne hroot hthrough
  by_cases hrest : rest = []
  · -- a pattern without wildcards
    subst hrest
    have hne : root ≠ [] := by
      have happend := Glob.root_append_rest hsplit
      rw [List.append_nil] at happend
      exact happend ▸ Glob.segments_ne_nil pattern
    have hwild : Path.hasWildcard pattern = false := by
      have hjoin := Local.joinSegments_splitRoot hsplit
      rw [List.append_nil] at hjoin
      exact hjoin ▸ Glob.hasWildcard_root hsplit
    obtain ⟨ps, hps, hsame⟩ := Glob.compile_literal hwild
    exact .inr ⟨matching files ps, glob_of_compile hps, fun h => absurd rfl h, fun h => absurd rfl h,
      fun _ => glob_path hcwd hholds hplain hsplit (hlooked hne) hsame⟩
  have hsplit' : Glob.splitRoot (Local.plainPath pattern) = (root, rest) := by rwa [hplain]
  rcases Glob.compile_splitRoot hsplit hrest with ⟨f, g, hf, hg⟩ | ⟨ps, qs, hps, hqs, hextends⟩
  · have hcompiles : Glob.matcher (joinSegments rest) = .error (.config (.globPattern (joinSegments rest) g)) := by
      rw [Glob.matcher, Glob.Matcher.ofText, hg]
      rfl
    exact .inl ⟨⟨_, glob_of_compile_error hf, rfl⟩,
      ⟨_, Local.glob_of_matcher_error hsplit' hrest (Glob.limitOfArgs_nothing _) hcompiles _, rfl⟩⟩
  · obtain ⟨hrefused, hlisted⟩ := glob_below_root hcwd hholds hsplit' hrest hlooked hqs hextends
    exact .inr ⟨matching files ps, glob_of_compile hps, fun _ => hrefused, fun _ h _ => hlisted h,
      fun h => absurd h hrest⟩

theorem glob_as_directory_documents : ∃ entries, (FileTree.dir entries).Holds ["conf/b.yaml", "conf/a/c.yaml"] ∧
    (ofList [("conf/b.yaml", ""), ("conf/a/c.yaml", "")]).backend.glob "conf/**/*.yaml" {} =
      (pure ["conf/a/c.yaml", "conf/b.yaml"] : Run Id _) ∧
    Local.glob ((FileTree.dir entries).disk []) "conf/**/*.yaml" {} =
      (pure ["conf/a/c.yaml", "conf/b.yaml"] : Run Id _) := by
  obtain ⟨entries, hholds⟩ := (FileTree.exists_holds_iff ["conf/b.yaml", "conf/a/c.yaml"]).mpr
    ⟨by decide, by decide⟩
  have hcompile : Glob.compile "conf/**/*.yaml" =
      .ok ("conf/".toList.map .char ++ .deep :: .run :: ".yaml".toList.map .char) := by
    simp [Glob.compile, Glob.compileFrom, Glob.endsDeep]
  have hmatching : matching [("conf/b.yaml", ""), ("conf/a/c.yaml", "")]
      ("conf/".toList.map .char ++ .deep :: .run :: ".yaml".toList.map .char) = ["conf/a/c.yaml", "conf/b.yaml"] := by
    refine Text.eq_of_pairwise_lt (pairwise_matching _ _) (by decide) fun path => ?_
    rw [mem_matching]
    constructor
    · rintro ⟨hpath, -⟩
      simpa [or_comm] using hpath
    · intro hpath
      have hboth : ∀ path ∈ ["conf/a/c.yaml", "conf/b.yaml"], path ∈ ["conf/b.yaml", "conf/a/c.yaml"] ∧
          Glob.accepts ("conf/".toList.map .char ++ .deep :: .run :: ".yaml".toList.map .char) path.toList = true := by
        decide
      exact hboth path hpath
  have hmemory : (ofList [("conf/b.yaml", ""), ("conf/a/c.yaml", "")]).backend.glob "conf/**/*.yaml" {} =
      (pure _ : Run Id _) := glob_of_compile hcompile
  rw [hmatching] at hmemory
  have hthrough : ∀ before after, ["conf"] = before ++ after → after ≠ [] →
      joinSegments before ∉ ["conf/b.yaml", "conf/a/c.yaml"] := by
    intro before after hsplit hafter
    rcases before with _ | ⟨name, before⟩
    · decide
    · simp at hsplit
      exact absurd hsplit.2.2 hafter
  have hrefuses : ¬ (FileTree.dir entries).Refuses ["conf"] := by
    rintro (hnul | hlong | hname | ⟨t, -, hlooks⟩)
    · exact absurd hnul (by decide)
    · exact absurd hlong (by decide)
    · exact absurd hname (by decide)
    · cases t <;> exact hlooks
  rcases glob_as_directory [("conf/b.yaml", ""), ("conf/a/c.yaml", "")] (.dir entries) [] rfl hholds
    (show Glob.splitRoot "conf/**/*.yaml" = (["conf"], ["**", "*.yaml"]) by decide) (by decide) hthrough with
    ⟨⟨f, hf, -⟩, -⟩ | ⟨paths, hpaths, -, hlisted, -⟩
  · exact absurd (hmemory.symm.trans hf) Run.pure_ne_throw
  · obtain rfl := Run.pure_inj.mp (hmemory.symm.trans hpaths)
    exact ⟨entries, hholds, hmemory, hlisted (List.cons_ne_nil _ _) hrefuses (by decide)⟩

theorem splitRoot_name {name : String} (hname : FileTree.Plain name) (hwild : Path.hasWildcard name = false) :
    Glob.splitRoot (name ++ "/" ++ "*.yaml") = ([name], ["*.yaml"]) := by
  have hpattern : joinSegments [name, "*.yaml"] = name ++ "/" ++ "*.yaml" := by
    rw [Glob.joinSegments_cons _ (List.cons_ne_nil _ _), Glob.joinSegments_singleton]
  have hfree : ∀ s ∈ [name, "*.yaml"], '/' ∉ s.toList := by
    rintro s (_ | ⟨_, _ | ⟨_, _⟩⟩)
    · exact hname.2.1
    · decide
    · contradiction
  rw [← hpattern, Glob.splitRoot_eq, Glob.segments_joinSegments (List.cons_ne_nil _ _) hfree]
  simp [hwild, show Path.hasWildcard "*.yaml" = true by decide]

/-- Nothing is in memory below a root whose name is too long, and the disk refuses to look it up. -/
theorem glob_long_name {name : String} (hname : FileTree.Plain name) (hwild : Path.hasWildcard name = false)
    (hlong : FileTree.maxNameLength < name.utf8ByteSize) (hlength : name.utf8ByteSize < maxPathLength) :
    (ofList []).backend.glob (name ++ "/" ++ "*.yaml") {} = (pure [] : Run Id _) ∧
      Local.glob (m := Id) ((FileTree.dir []).disk []) (name ++ "/" ++ "*.yaml") {} =
        Run.raise (.io "listing" name .nameTooLong) := by
  have hsplit := splitRoot_name hname hwild
  obtain ⟨hspecial, hslash, hnul⟩ := hname
  have hjoin : joinSegments [name] = name := Glob.joinSegments_singleton name
  have hlast : joinSegments ["*.yaml"] = "*.yaml" := Glob.joinSegments_singleton _
  have hplain := Local.plainPath_of_root hsplit fun h => hspecial (List.mem_singleton.mp h ▸ List.mem_cons_self)
  have hcompile : Glob.compile "*.yaml" = .ok (.run :: ".yaml".toList.map .char) := by
    simp [Glob.compile, Glob.compileFrom]
  constructor
  · rcases Glob.compile_below hwild "*.yaml" with ⟨f, g, -, hg, -⟩ | ⟨ps, qs, hps, -, -⟩
    · cases hg.symm.trans hcompile
    · rw [glob_of_compile hps, matching_nil]
  · have hlooked : (FileTree.dir []).LookedUp [name] := by
      refine ⟨List.cons_ne_nil _ _, List.forall_mem_singleton.mpr ⟨hspecial, hslash⟩, ?_⟩
      rintro before after bytes - hfile
      cases before <;> cases hfile
    have hroot : Local.rootDirectory [name] = name := by
      have hempty := hlooked.joinSegments_ne_empty
      rw [hjoin] at hempty
      simp [Local.rootDirectory, hjoin, hempty]
    have hcwd : (FileTree.dir []).descend? [] = some (.dir []) := rfl
    have hresolve := (hlooked.resolve hcwd FileTree.holds_nil.tidy FileTree.holds_nil.linkless (by rwa [hjoin])
      (by rwa [hjoin])).1 (.inl hlong)
    rw [hjoin, ← hroot] at hresolve
    have hmatcher : Glob.matcher (joinSegments ["*.yaml"]) = .ok ⟨"*.yaml", .run :: ".yaml".toList.map .char⟩ := by
      rw [hlast, Glob.matcher, Glob.Matcher.ofText, hcompile]
      rfl
    rw [Local.glob_root_error (hplain.symm ▸ hsplit) (by simp) (Glob.limitOfArgs_nothing _) hmatcher hresolve,
      if_neg (by decide), hroot]

/-- A file whose path is too long is listed in memory by its path, and not on the disk. -/
theorem glob_long_path {names : List String} (hne : names ≠ []) (hnames : ∀ name ∈ names, FileTree.portable name)
    (hwild : ∀ name ∈ names, Path.hasWildcard name = false)
    (hlength : maxPathLength ≤ (joinSegments names).utf8ByteSize) :
    ∃ entries, (FileTree.dir entries).Holds [joinSegments names] ∧
      (ofList [(joinSegments names, "")]).backend.glob (joinSegments names) {} =
        (pure [joinSegments names] : Run Id _) ∧
      Local.glob ((FileTree.dir entries).disk []) (joinSegments names) {} = (pure [] : Run Id _) := by
  have hstorable : ∀ name ∈ names, FileTree.storable name := fun name hname => (hnames name hname).1
  have hpieces := Local.pieces_joinSegments hne hstorable
  obtain ⟨entries, hholds⟩ := (FileTree.exists_holds_iff [joinSegments names]).mpr
    ⟨by simpa [hpieces] using hnames, by simp⟩
  have hsplit : Glob.splitRoot (joinSegments names) = (names, []) := by
    have hplain : ∀ name ∈ names, (!Path.hasWildcard name) = true := fun name hname => by rw [hwild name hname]; rfl
    rw [Glob.splitRoot_eq, show Glob.segments (joinSegments names) = names from hpieces,
      List.takeWhile_eq_self_iff.mpr hplain, List.dropWhile_eq_nil_iff.mpr hplain]
  obtain ⟨ps, hps, hsame⟩ := Glob.compile_literal (Glob.hasWildcard_root hsplit)
  have hplain := Local.plainPath_joinSegments hne hstorable
  have hnonempty : joinSegments names ≠ "" := by
    intro hempty
    rw [hempty] at hlength
    exact absurd hlength (by decide)
  refine ⟨entries, hholds, ?_, ?_⟩
  · rw [glob_of_compile hps, matching_literal hsame, if_pos (by simp)]
  · rw [Local.glob_literal (hplain.symm ▸ hsplit) (Glob.limitOfArgs_nothing _), hplain,
      FileTree.resolve_of_long (Local.nul_not_mem hstorable) hnonempty hlength]

def letters (n : Nat) : String := String.ofList (List.replicate n 'x')

theorem eq_of_mem_letters {n : Nat} {c : Char} (h : c ∈ (letters n).toList) : c = 'x' := by
  rw [letters, String.toList_ofList] at h
  exact List.eq_of_mem_replicate h

theorem utf8ByteSize_letters (n : Nat) : (letters n).utf8ByteSize = n := by
  induction n with
  | zero => rfl
  | succ n ih =>
    have hcons : letters (n + 1) = "x" ++ letters n := by
      apply String.ext
      simp [letters, List.replicate_succ]
    rw [hcons, String.utf8ByteSize_append, ih, show "x".utf8ByteSize = 1 by decide, Nat.add_comm]

theorem plain_letters {n : Nat} (h : 0 < n) : FileTree.Plain (letters n) := by
  refine ⟨fun hmem => ?_, ?_, ?_⟩
  · have hfree : ∀ name ∈ ["", ".", ".."], 'x' ∉ name.toList := by decide
    refine hfree _ hmem ?_
    rw [letters, String.toList_ofList]
    exact List.mem_replicate.mpr ⟨Nat.ne_of_gt h, rfl⟩
  · exact fun hmem => absurd (eq_of_mem_letters hmem) (by decide)
  · exact fun hmem => absurd (eq_of_mem_letters hmem) (by decide)

theorem hasWildcard_letters (n : Nat) : Path.hasWildcard (letters n) = false := by
  rw [Path.hasWildcard, List.any_eq_false]
  intro c hc
  rw [eq_of_mem_letters hc]
  decide

theorem utf8ByteSize_joinSegments_replicate (name : String) (n : Nat) :
    (joinSegments (List.replicate (n + 1) name)).utf8ByteSize = n * (name.utf8ByteSize + 1) + name.utf8ByteSize := by
  induction n with
  | zero => simp [Glob.joinSegments_singleton]
  | succ n ih =>
    rw [List.replicate_succ, Glob.joinSegments_cons _ (by simp), String.utf8ByteSize_append, String.utf8ByteSize_append,
      ih, show "/".utf8ByteSize = 1 by decide, Nat.succ_mul]
    omega

/-- A root of one name too long, and the path of a file below sixteen directories with the longest names. -/
theorem glob_not_as_directory :
    ((FileTree.dir []).Holds [] ∧
      Glob.splitRoot (letters 256 ++ "/" ++ "*.yaml") = ([letters 256], ["*.yaml"]) ∧ letters 256 ∉ ["", ".", ".."] ∧
      (ofList []).backend.glob (letters 256 ++ "/" ++ "*.yaml") {} = (pure [] : Run Id _) ∧
      Local.glob (m := Id) ((FileTree.dir []).disk []) (letters 256 ++ "/" ++ "*.yaml") {} =
        Run.raise (.io "listing" (letters 256) .nameTooLong)) ∧
    ∃ entries, (FileTree.dir entries).Holds [joinSegments (List.replicate 17 (letters 255))] ∧
      (ofList [(joinSegments (List.replicate 17 (letters 255)), "")]).backend.glob
        (joinSegments (List.replicate 17 (letters 255))) {} =
          (pure [joinSegments (List.replicate 17 (letters 255))] : Run Id _) ∧
      Local.glob ((FileTree.dir entries).disk []) (joinSegments (List.replicate 17 (letters 255))) {} =
        (pure [] : Run Id _) := by
  have hname : FileTree.portable (letters 255) :=
    ⟨FileTree.storable_iff_plain.mpr ⟨plain_letters (by decide), by rw [utf8ByteSize_letters]; decide⟩,
      fun hmem => absurd (eq_of_mem_letters hmem) (by decide)⟩
  have hlong : FileTree.Plain (letters 256) := plain_letters (by decide)
  refine ⟨⟨FileTree.holds_nil, splitRoot_name hlong (hasWildcard_letters 256), hlong.1,
    glob_long_name hlong (hasWildcard_letters 256) ?_ ?_⟩, glob_long_path (by simp) ?_ ?_ ?_⟩
  · rw [utf8ByteSize_letters]
    decide
  · rw [utf8ByteSize_letters]
    decide
  · intro name hmem
    rwa [List.eq_of_mem_replicate hmem]
  · intro name hmem
    rw [List.eq_of_mem_replicate hmem]
    exact hasWildcard_letters 255
  · rw [utf8ByteSize_joinSegments_replicate, utf8ByteSize_letters]
    decide

end Memory

end Transclusion
