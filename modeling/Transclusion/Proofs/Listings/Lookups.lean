import Transclusion.Proofs.Listings.Held

/-!
# Paths that are not looked for

A path is looked up name after name, and leads nowhere where a name is not there. Other paths are refused: with a zero
character in them, too long as a whole, or with a name that is too long for the directory it is looked up in.

* `FileTree.LooksTooLong` : on the way down a name is looked up that is too long;
* `FileTree.walk_plain` : how a walk ends that takes plain names down a directory;
* `FileTree.Refuses`, `FileTree.LookedUp` : paths that are refused, and names that are looked up one by one;
* `FileTree.resolve_rootDirectory` : where the root of a listing leads;
* `Local.glob_root_error`, `Local.glob_root_file`, `Local.glob_literal` : what is listed below a root that is no
  directory, and by a path.
-/

namespace Transclusion

open Glob (joinSegments)

namespace FileTree

/-- On the way down by the names, one of them is looked up that is too long for any directory. -/
def LooksTooLong : FileTree → List String → Prop
  | .dir entries, name :: rest =>
    maxNameLength < name.utf8ByteSize ∨ ∃ t, child? name (.dir entries) = some t ∧ t.LooksTooLong rest
  | _, _ => False

def Plain (name : String) : Prop := name ∉ ["", ".", ".."] ∧ '/' ∉ name.toList ∧ Char.ofNat 0 ∉ name.toList

/-- A path of names is not looked for, whatever there is. -/
def Refuses (dir : FileTree) (names : List String) : Prop :=
  Char.ofNat 0 ∈ (joinSegments names).toList ∨ maxPathLength ≤ (joinSegments names).utf8ByteSize ∨
    dir.LooksTooLong names

/-- No file is on the way down by the names, but at the end. -/
def Unbarred (dir : FileTree) (names : List String) : Prop :=
  ∀ before after bytes, names = before ++ after → dir.descend? before = some (.file bytes) → after = []

section
variable {t d u : FileTree} {name : String} {names here rest : List String} {entries : List (String × FileTree)}
  {fuel links : Nat}

theorem storable_iff_plain : storable name ↔ Plain name ∧ name.utf8ByteSize ≤ maxNameLength := by
  unfold storable Plain
  tauto

theorem Tidy.not_looksTooLong (h : d.Tidy portable) (hd : d.descend? names = some u) : ¬ d.LooksTooLong names := by
  induction names generalizing d with
  | nil => cases d <;> exact id
  | cons name rest ih =>
    obtain ⟨c, hc, hrest⟩ := Option.bind_eq_some_iff.mp hd
    cases d with
    | file => cases hc
    | link => cases hc
    | dir entries =>
      have hone := h.descend? (descend?_cons_of_child? hc : (FileTree.dir entries).descend? [name] = some c)
      rintro (hlong | ⟨c', hc', hlong⟩)
      · exact absurd (hone.2 name (List.mem_singleton_self name)).1.2.2.2 (Nat.not_le.mpr hlong)
      · rw [hc, Option.some_inj] at hc'
        subst hc'
        exact ih hone.1 hrest hlong

theorem walk_long (hhere : t.descend? here.reverse = some (.dir entries)) (hname : name ∉ ["", ".", ".."])
    (hlong : maxNameLength < name.utf8ByteSize) :
    t.walk .follow (fuel + 1) links here (name :: rest) = .error .nameTooLong := by
  simp only [List.mem_cons, List.not_mem_nil, or_false, not_or] at hname
  obtain ⟨hempty, hdot, hdots⟩ := hname
  rw [walk.eq_7 t .follow links here fuel entries name rest hempty hdot hdots hhere, if_pos hlong]

/-- Plain names lead down a directory to what they lead to there, or nowhere, unless a name that is too long is
looked up. -/
theorem walk_plain (hhere : t.descend? here.reverse = some d) (htidy : d.Tidy portable) (hlinkless : d.Linkless)
    (hnames : ∀ name ∈ names, Plain name) (hunbarred : d.Unbarred names) (hfuel : names.length < fuel) :
    (d.LooksTooLong names → t.walk .follow fuel links here names = .error .nameTooLong) ∧
    (¬ d.LooksTooLong names → t.walk .follow fuel links here names =
      (d.descend? names).elim (.error .notFound) fun u => .ok (names.reverse ++ here, u)) := by
  obtain ⟨fuel, rfl⟩ : ∃ n, fuel = n + 1 := Nat.exists_eq_succ_of_ne_zero (by omega)
  induction names generalizing here d fuel with
  | nil =>
    refine ⟨fun h => ?_, fun _ => walk_nil hhere⟩
    cases d <;> cases h
  | cons name rest ih =>
    obtain ⟨hname, hrest⟩ := List.forall_mem_cons.mp hnames
    cases d with
    | file bytes => cases hunbarred [] (name :: rest) bytes rfl rfl
    | link => cases hlinkless
    | dir entries =>
      by_cases hlong : maxNameLength < name.utf8ByteSize
      · exact ⟨fun _ => walk_long hhere hname.1 hlong, fun h => absurd (.inl hlong) h⟩
      have hstorable : storable name := storable_iff_plain.mpr ⟨hname, Nat.not_lt.mp hlong⟩
      cases hc : child? name (.dir entries) with
      | none =>
        refine ⟨?_, fun _ => ?_⟩
        · rintro (h | ⟨c, hc', -⟩)
          · exact absurd h hlong
          · rw [hc] at hc'
            cases hc'
        · rw [walk_missing hhere hstorable hc, descend?, hc]
          rfl
      | some c =>
        have hone : (dir entries).descend? [name] = some c := descend?_cons_of_child? hc
        have hnoLink : ∀ target, c ≠ .link target := by
          rintro target rfl
          cases hlinkless.child? hc
        have hbelow : t.descend? (name :: here).reverse = some c := by
          rw [List.reverse_cons, descend?_append, hhere]
          exact hone
        have hunbarred' : c.Unbarred rest := by
          rintro before after bytes rfl hfile
          exact hunbarred (name :: before) after bytes rfl ((descend?_cons_of_child? hc).trans hfile)
        obtain ⟨fuel, rfl⟩ : ∃ n, fuel = n + 1 := Nat.exists_eq_succ_of_ne_zero (by simp at hfuel; omega)
        have hgo := ih hbelow (htidy.descend? hone).1 (hlinkless.child? hc) hrest hunbarred' fuel (by simpa using hfuel)
        have hlooks : (dir entries).LooksTooLong (name :: rest) ↔ c.LooksTooLong rest := by
          simp [LooksTooLong, hlong, hc]
        rw [walk_name hhere hstorable hc hnoLink, hlooks, descend?_cons_of_child? hc, List.reverse_cons,
          List.append_assoc]
        exact hgo

/-! ## Paths from the working directory -/

/-- The names of a path that is looked up in a directory: none of them is empty, leads here or leads up, and no file is
on the way. -/
structure LookedUp (dir : FileTree) (names : List String) : Prop where
  nonempty : names ≠ []
  named : ∀ name ∈ names, name ∉ ["", ".", ".."] ∧ '/' ∉ name.toList
  unbarred : dir.Unbarred names

theorem LookedUp.pieces (h : d.LookedUp names) : pieces (joinSegments names) = names :=
  Glob.segments_joinSegments h.nonempty fun name hname => (h.named name hname).2

theorem LookedUp.empty_not_mem (h : d.LookedUp names) : "" ∉ names := fun hempty => (h.named "" hempty).1 (by decide)

theorem LookedUp.joinSegments_ne_empty (h : d.LookedUp names) : joinSegments names ≠ "" := by
  intro hempty
  have hpieces := h.pieces
  rw [hempty, show FileTree.pieces "" = [""] by decide] at hpieces
  exact h.empty_not_mem (hpieces ▸ List.mem_singleton_self "")

/-- Where a path leads that has no zero character in it and is not too long as a whole. -/
theorem LookedUp.resolve (h : d.LookedUp names) {cwd : List String} (hcwd : t.descend? cwd = some d)
    (htidy : d.Tidy portable) (hlinkless : d.Linkless) (hnul : Char.ofNat 0 ∉ (joinSegments names).toList)
    (hlength : (joinSegments names).utf8ByteSize < maxPathLength) :
    (d.LooksTooLong names → t.resolve cwd .follow (joinSegments names) = .error .nameTooLong) ∧
    (¬ d.LooksTooLong names → t.resolve cwd .follow (joinSegments names) =
      (d.descend? names).elim (.error .notFound) fun u => .ok (names.reverse ++ cwd.reverse, u)) := by
  have hplain : ∀ name ∈ names, Plain name := by
    intro name hname
    obtain ⟨hspecial, hslash⟩ := h.named name hname
    refine ⟨hspecial, hslash, fun hmem => hnul ?_⟩
    rw [joinSegments, String.toList_ofList]
    exact Text.mem_joinWith_of_mem (List.mem_map_of_mem hname) hmem
  have hhead : ((joinSegments names).toList.head? == some '/') = false :=
    beq_eq_false_iff_ne.mpr (Local.head?_ne_slash (h.pieces.symm ▸ h.empty_not_mem))
  have hfuel : names.length < (maxLinks + 1) * (maxPathLength + 1) := by
    have hslashes := Glob.length_segments (joinSegments names)
    have hchars : (joinSegments names).toList.count '/' ≤ (joinSegments names).toList.length := List.count_le_length
    have hbytes := length_le_utf8ByteSize (joinSegments names)
    rw [show Glob.segments (joinSegments names) = names from h.pieces] at hslashes
    simp only [maxLinks, maxPathLength] at *
    omega
  rw [resolve_of_walk hnul h.joinSegments_ne_empty hlength, hhead, if_neg (by simp), h.pieces]
  exact walk_plain (by rwa [List.reverse_reverse]) htidy hlinkless hplain h.unbarred hfuel

theorem LookedUp.resolve_refused (h : d.LookedUp names) {cwd : List String} (hcwd : t.descend? cwd = some d)
    (htidy : d.Tidy portable) (hlinkless : d.Linkless) (hrefuses : d.Refuses names) :
    ∃ f, t.resolve cwd .follow (joinSegments names) = .error f ∧ f.kind ≠ .notFound := by
  by_cases hnul : Char.ofNat 0 ∈ (joinSegments names).toList
  · exact ⟨.nulInName, by rw [FileTree.resolve, if_pos (by simpa using hnul)], by decide⟩
  by_cases hlength : maxPathLength ≤ (joinSegments names).utf8ByteSize
  · exact ⟨.nameTooLong, resolve_of_long hnul h.joinSegments_ne_empty hlength, by decide⟩
  have hlong : d.LooksTooLong names := (hrefuses.resolve_left hnul).resolve_left hlength
  exact ⟨.nameTooLong, (h.resolve hcwd htidy hlinkless hnul (Nat.not_le.mp hlength)).1 hlong, by decide⟩

theorem LookedUp.resolve_not_refused (h : d.LookedUp names) {cwd : List String} (hcwd : t.descend? cwd = some d)
    (htidy : d.Tidy portable) (hlinkless : d.Linkless) (hrefuses : ¬ d.Refuses names) :
    t.resolve cwd .follow (joinSegments names) =
      (d.descend? names).elim (.error .notFound) fun u => .ok (names.reverse ++ cwd.reverse, u) := by
  unfold Refuses at hrefuses
  push Not at hrefuses
  obtain ⟨hnul, hlength, hlong⟩ := hrefuses
  exact (h.resolve hcwd htidy hlinkless hnul hlength).2 hlong

theorem not_refuses_of_file (htidy : (FileTree.dir entries).Tidy portable) {bytes : ByteArray}
    (hfile : (FileTree.dir entries).descend? names = some (.file bytes))
    (hlength : (joinSegments names).utf8ByteSize < maxPathLength) : ¬ (FileTree.dir entries).Refuses names := by
  rintro (hnul | hlong | hlooks)
  · exact Local.nul_not_mem (fun name hname => ((htidy.descend? hfile).2 name hname).1) hnul
  · exact absurd hlength (Nat.not_lt.mpr hlong)
  · exact htidy.not_looksTooLong hfile hlooks

/-- A path leads to a file if it is not refused and the file is there. -/
theorem LookedUp.resolve_eq_file_iff (h : d.LookedUp names) {cwd : List String} (hcwd : t.descend? cwd = some d)
    (htidy : d.Tidy portable) (hlinkless : d.Linkless) :
    (∃ place bytes, t.resolve cwd .follow (joinSegments names) = .ok (place, .file bytes)) ↔
      ¬ d.Refuses names ∧ ∃ bytes, d.descend? names = some (.file bytes) := by
  by_cases hrefuses : d.Refuses names
  · obtain ⟨f, hf, -⟩ := h.resolve_refused hcwd htidy hlinkless hrefuses
    simp [hf, hrefuses]
  · rw [h.resolve_not_refused hcwd htidy hlinkless hrefuses]
    cases d.descend? names <;> simp [hrefuses]

theorem not_refuses_nil : ¬ d.Refuses [] := by
  rintro (hnul | hlong | hlooks)
  · exact absurd hnul (by decide)
  · exact absurd hlong (by decide)
  · cases d <;> exact hlooks

/-- The root of a listing leads where its names lead from the working directory. -/
theorem resolve_rootDirectory {cwd : List String} (hcwd : t.descend? cwd = some (.dir entries))
    (htidy : (FileTree.dir entries).Tidy portable) (hlinkless : (FileTree.dir entries).Linkless)
    (h : names ≠ [] → (FileTree.dir entries).LookedUp names) :
    ((FileTree.dir entries).Refuses names → Local.rootDirectory names = joinSegments names ∧
      ∃ f, t.resolve cwd .follow (Local.rootDirectory names) = .error f ∧ f.kind ≠ .notFound) ∧
    (¬ (FileTree.dir entries).Refuses names → t.resolve cwd .follow (Local.rootDirectory names) =
      ((FileTree.dir entries).descend? names).elim (.error .notFound) fun u =>
        .ok (names.reverse ++ cwd.reverse, u)) := by
  by_cases hne : names = []
  · -- the working directory itself
    subst hne
    refine ⟨fun hrefuses => absurd hrefuses not_refuses_nil, fun _ => ?_⟩
    obtain ⟨fuel, hfuel⟩ : ∃ fuel, (maxLinks + 1) * (maxPathLength + 1) = fuel + 2 := ⟨_, rfl⟩
    have hhere : t.descend? cwd.reverse.reverse = some (.dir entries) := by rwa [List.reverse_reverse]
    rw [show Local.rootDirectory [] = "." from rfl, resolve_of_walk (by decide) (by decide) (by decide), hfuel,
      show pieces "." = ["."] by decide, if_neg (by decide)]
    simp only [walk, hhere]
    rfl
  · have hlooked := h hne
    have hdirectory : Local.rootDirectory names = joinSegments names := by
      simp [Local.rootDirectory, hne, hlooked.joinSegments_ne_empty]
    rw [hdirectory]
    exact ⟨fun hrefuses => ⟨rfl, hlooked.resolve_refused hcwd htidy hlinkless hrefuses⟩,
      hlooked.resolve_not_refused hcwd htidy hlinkless⟩

end

end FileTree

/-! ## Listings below a root -/

theorem Glob.limitOfArgs_nothing (pattern : String) : Glob.limitOfArgs pattern {} = .ok none := rfl

namespace Local

section
variable {m : Type → Type} [Monad m] [LawfulMonad m] {t : FileTree} {cwd : List String} {pattern : String}
  {args : Args} {maxdepth : Option Nat} {root rest place : List String}

/-- A pattern begins with `file://` only if a segment of its root is empty. -/
theorem plainPath_of_root (hsplit : Glob.splitRoot pattern = (root, rest)) (h : "" ∉ root) :
    plainPath pattern = pattern := by
  unfold plainPath
  split
  · rename_i after hafter
    have htext : pattern.toList = "file:".toList ++ '/' :: ('/' :: after) := by
      rw [Text.dropHead?_eq_some.mp hafter]
      rfl
    have hsegments : Glob.segments pattern = "file:" :: "" :: (Text.splitOn '/' after).map String.ofList := by
      rw [Glob.segments, htext, Text.splitOn_append, Text.splitOn, if_pos rfl]
      rfl
    rw [Glob.splitRoot_eq, hsegments, List.takeWhile_cons_of_pos (by decide), List.takeWhile_cons_of_pos (by decide)]
      at hsplit
    obtain ⟨rfl, -⟩ := Prod.mk.inj hsplit
    simp at h
  · rfl

theorem glob_root_error {p : Glob.Matcher} {f : IoFault} (hsplit : Glob.splitRoot (plainPath pattern) = (root, rest))
    (hrest : rest ≠ []) (hdepth : Glob.limitOfArgs pattern args = .ok maxdepth)
    (hcompiles : Glob.matcher (joinSegments rest) = .ok p)
    (hroot : t.resolve cwd .follow (rootDirectory root) = .error f) :
    glob (m := m) (t.disk cwd) pattern args =
      if f.kind = .notFound then pure [] else Run.raise (.io "listing" (rootDirectory root) f) := by
  rw [glob_eq hsplit hrest hdepth hcompiles, matchesBelow_error hroot]
  split
  · rw [map_pure]
    simp
  · rw [map_eq_pure_bind]
    exact Run.raise_bind _ _

theorem glob_root_file {p : Glob.Matcher} {bytes : ByteArray}
    (hsplit : Glob.splitRoot (plainPath pattern) = (root, rest)) (hrest : rest ≠ [])
    (hdepth : Glob.limitOfArgs pattern args = .ok maxdepth)
    (hcompiles : Glob.matcher (joinSegments rest) = .ok p)
    (hroot : t.resolve cwd .follow (rootDirectory root) = .ok (place, .file bytes)) :
    glob (m := m) (t.disk cwd) pattern args = pure [] := by
  have hfound : ∀ limit, t.filesBelow cwd (rootDirectory root) limit = .ok [] := by
    intro limit
    rw [FileTree.filesBelow, hroot]
    rfl
  rw [glob_eq hsplit hrest hdepth hcompiles]
  simp [matchesBelow, FileTree.disk, hfound]

theorem glob_literal (hsplit : Glob.splitRoot (plainPath pattern) = (root, []))
    (hdepth : Glob.limitOfArgs pattern args = .ok maxdepth) :
    glob (m := m) (t.disk cwd) pattern args = pure (match t.resolve cwd .follow (plainPath pattern) with
      | .ok (_, .file _) => [plainPath pattern]
      | _ => []) := by
  rw [glob_eq_listed]
  simp only [listed, hdepth, hsplit, List.isEmpty_nil, if_true]
  rfl

end

end Local

end Transclusion
