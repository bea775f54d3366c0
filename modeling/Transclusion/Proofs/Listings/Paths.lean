import Transclusion.Proofs.Listings.Local

/-!
# Paths below a root

A listing gives paths as texts, and a path is walked when it is opened, name after name.

* `FileTree.Linkless`, `FileTree.storable` : trees of files and directories alone, and the names in them;
* `FileTree.walk_append`, `FileTree.exists_walk_append` : a walk goes on where another ended;
* `FileTree.walk_of_descend?` : a walk follows names, unless there are too many;
* `Local.resolve_below`, `Local.resolve_below_or` : the path of a file below a root leads to the file.
-/

namespace Transclusion

open Text

namespace FileTree

/-! ## Files and directories alone -/

inductive Linkless : FileTree → Prop where
  | file (bytes : ByteArray) : Linkless (.file bytes)
  | dir {entries : List (String × FileTree)} (below : ∀ e ∈ entries, Linkless e.2) : Linkless (.dir entries)

def storable (name : String) : Prop :=
  name ∉ ["", ".", ".."] ∧ '/' ∉ name.toList ∧ Char.ofNat 0 ∉ name.toList ∧ name.utf8ByteSize ≤ maxNameLength

instance : DecidablePred storable := fun _ => inferInstanceAs (Decidable (_ ∧ _))

section
variable {t d u : FileTree} {name : String} {names more here place : List String} {links fuel n : Nat}

theorem Linkless.child? (h : t.Linkless) (hc : t.child? name = some u) : u.Linkless := by
  cases h with
  | file => cases hc
  | dir below => exact below _ (mem_of_child? hc)

theorem Linkless.descend? (h : t.Linkless) (hd : t.descend? names = some u) : u.Linkless := by
  induction names generalizing t with
  | nil =>
    cases hd
    exact h
  | cons name rest ih =>
    obtain ⟨c, hc, hrest⟩ := Option.bind_eq_some_iff.mp hd
    exact ih (h.child? hc) hrest

theorem descend?_append (t : FileTree) (names more : List String) :
    t.descend? (names ++ more) = (t.descend? names).bind (·.descend? more) := by
  induction names generalizing t with
  | nil => rfl
  | cons name rest ih =>
    simp only [List.cons_append, descend?, Option.bind_assoc]
    exact congrArg _ (funext fun c => ih c)

/-! ## Walks -/

def next (entries : List (String × FileTree)) (here : List String) (name : String) : Except IoFault (List String) :=
  if name = "" ∨ name = "." then .ok here
  else if name = ".." then .ok (here.drop 1)
  else if maxNameLength < name.utf8ByteSize then .error .nameTooLong
  else if (child? name (.dir entries)).isSome then .ok (name :: here)
  else .error .notFound

theorem walk_nil (hd : t.descend? here.reverse = some d) :
    t.walk .follow (fuel + 1) links here [] = .ok (here, d) := by
  simp only [walk, hd]

theorem walk_cons (ht : t.Linkless) {entries : List (String × FileTree)}
    (hd : t.descend? here.reverse = some (.dir entries)) :
    t.walk .follow (fuel + 1) links here (name :: names) =
      (next entries here name).bind fun here' => t.walk .follow fuel links here' names := by
  have hlinkless := ht.descend? hd
  by_cases hempty : name = ""
  · simp only [walk, hd, hempty, next, true_or, if_true]
    rfl
  by_cases hdot : name = "."
  · simp only [walk, hd, hdot, next, or_true, if_true]
    rfl
  by_cases hdots : name = ".."
  · simp only [walk, hd, hdots, next]
    rfl
  simp only [walk, hd, hempty, hdot, hdots, next, false_or, if_false]
  split
  · rfl
  · rw [child?_dir]
    cases hfind : entries.find? (·.1 == name) with
    | none => rfl
    | some e =>
      obtain ⟨name', c⟩ := e
      cases c with
      | file => rfl
      | dir => rfl
      | link target => cases hlinkless.child? (show child? name (.dir entries) = _ by rw [child?_dir, hfind]; rfl)

theorem directory_of_walk (h : t.walk .follow fuel links here (name :: names) = .ok (place, u)) :
    ∃ left entries, fuel = left + 1 ∧ t.descend? here.reverse = some (.dir entries) := by
  cases fuel with
  | zero => cases h
  | succ left =>
    cases hd : t.descend? here.reverse with
    | none => simp [walk, hd] at h
    | some d =>
      cases d with
      | dir entries => exact ⟨left, entries, rfl, rfl⟩
      | file | link => simp [walk, hd] at h

/-- Where there are no links, a walk takes the names one by one, and goes on from where a walk of the first of
them ended. -/
theorem walk_append (ht : t.Linkless) (h : t.walk .follow fuel links here names = .ok (place, u)) (n : Nat)
    (more : List String) :
    t.walk .follow (names.length + n) links here (names ++ more) = t.walk .follow n links place more := by
  induction names generalizing fuel here with
  | nil =>
    cases fuel with
    | zero => cases h
    | succ fuel =>
      cases hd : t.descend? here.reverse with
      | none => simp [walk, hd] at h
      | some d =>
        rw [walk_nil hd] at h
        cases h
        simp
  | cons name rest ih =>
    obtain ⟨left, entries, rfl, hd⟩ := directory_of_walk h
    rw [walk_cons ht hd] at h
    rw [List.length_cons, Nat.add_right_comm, List.cons_append, walk_cons ht hd]
    cases hnext : next entries here name with
    | error f =>
      rw [hnext] at h
      cases h
    | ok here' =>
      rw [hnext] at h
      exact ih h

/-- What takes a name goes on from where the name leads, whatever the names after it are. The names of a link come
before them. -/
theorem exists_walk_cons (h : t.walk .follow fuel links here (name :: names) = .ok (place, u)) :
    ∃ left links' here' target, fuel = left + 1 ∧ ∀ names,
      t.walk .follow (left + 1) links here (name :: names) = t.walk .follow left links' here' (target ++ names) := by
  obtain ⟨left, entries, rfl, hd⟩ := directory_of_walk h
  by_cases hempty : name = ""
  · exact ⟨left, links, here, [], rfl, fun names => by simp only [walk, hd, hempty, List.nil_append]⟩
  by_cases hdot : name = "."
  · exact ⟨left, links, here, [], rfl, fun names => by simp only [walk, hd, hdot, List.nil_append]⟩
  by_cases hdots : name = ".."
  · exact ⟨left, links, here.drop 1, [], rfl, fun names => by simp only [walk, hd, hdots, List.nil_append]⟩
  have hstep := fun names => walk.eq_7 t .follow links here left entries name names hempty hdot hdots hd
  rw [hstep] at h
  split at h
  · cases h
  rename_i hlength
  split at h
  · cases h
  · rename_i target hfind
    simp only [reduceCtorEq, decide_false, Bool.and_false, Bool.false_eq_true, if_false] at h
    split at h
    · cases h
    · rename_i links'
      refine ⟨left, links', if target.toList.head? == some '/' then [] else here, pieces target, rfl, fun names => ?_⟩
      rw [hstep, if_neg hlength, hfind]
      simp
  · rename_i e hnoLink hfind
    refine ⟨left, links, name :: here, [], rfl, fun names => ?_⟩
    rw [hstep, if_neg hlength, hfind]
    obtain ⟨name', c⟩ := e
    cases c with
    | link target => exact absurd rfl (hnoLink name' target)
    | file | dir => rfl

/-- A walk goes on from where a walk of the first names ended, also if there are links on the way. -/
theorem exists_walk_append (h : t.walk .follow fuel links here names = .ok (place, u)) :
    ∃ left links', ∀ more,
      t.walk .follow fuel links here (names ++ more) = t.walk .follow (left + 1) links' place more := by
  induction fuel generalizing links here names with
  | zero => cases h
  | succ fuel ih =>
    cases names with
    | nil =>
      cases hd : t.descend? here.reverse with
      | none => simp [walk, hd] at h
      | some d =>
        rw [walk_nil hd] at h
        cases h
        exact ⟨fuel, links, fun more => rfl⟩
    | cons name rest =>
      obtain ⟨left, links₁, here', target, hleft, hstep⟩ := exists_walk_cons h
      obtain rfl := Nat.succ.inj hleft
      rw [hstep] at h
      obtain ⟨left, links', hmore⟩ := ih h
      refine ⟨left, links', fun more => ?_⟩
      rw [List.cons_append, hstep, ← List.append_assoc, hmore]

theorem walk_name {entries : List (String × FileTree)} (hd : t.descend? here.reverse = some (.dir entries))
    (hname : storable name) (hc : child? name (.dir entries) = some u) (hu : ∀ target, u ≠ .link target) :
    t.walk .follow (fuel + 1) links here (name :: names) = t.walk .follow fuel links (name :: here) names := by
  obtain ⟨hspecial, -, -, hlength⟩ := hname
  simp only [List.mem_cons, List.not_mem_nil, or_false, not_or] at hspecial
  obtain ⟨hempty, hdot, hdots⟩ := hspecial
  rw [child?_dir] at hc
  obtain ⟨⟨name', c⟩, hfind, rfl⟩ := Option.map_eq_some_iff.mp hc
  rw [walk.eq_7 t .follow links here fuel entries name names hempty hdot hdots hd, if_neg (Nat.not_lt.mpr hlength),
    hfind]
  cases c with
  | link target => exact absurd rfl (hu target)
  | file | dir => rfl

theorem walk_missing {entries : List (String × FileTree)} (hd : t.descend? here.reverse = some (.dir entries))
    (hname : storable name) (hc : child? name (.dir entries) = none) :
    t.walk .follow (fuel + 1) links here (name :: names) = .error .notFound := by
  obtain ⟨hspecial, -, -, hlength⟩ := hname
  simp only [List.mem_cons, List.not_mem_nil, or_false, not_or] at hspecial
  obtain ⟨hempty, hdot, hdots⟩ := hspecial
  rw [child?_dir, Option.map_eq_none_iff] at hc
  rw [walk.eq_7 t .follow links here fuel entries name names hempty hdot hdots hd, if_neg (Nat.not_lt.mpr hlength), hc]

/-- A walk of names that lead from a directory to a node, which is no link, comes to that node, unless the names are
too many. -/
theorem walk_of_descend? (hhere : t.descend? here.reverse = some d) (hd : d.descend? names = some u)
    (hu : ∀ target, u ≠ .link target) (hnames : ∀ name ∈ names, storable name) :
    t.walk .follow fuel links here names =
      if names.length < fuel then .ok (names.reverse ++ here, u) else .error .linkLoop := by
  induction names generalizing fuel here d with
  | nil =>
    cases hd
    cases fuel with
    | zero => rfl
    | succ fuel => simp [walk_nil hhere]
  | cons name rest ih =>
    obtain ⟨c, hc, hrest⟩ := Option.bind_eq_some_iff.mp hd
    obtain ⟨hname, hnames⟩ := List.forall_mem_cons.mp hnames
    cases d with
    | file => cases hc
    | link => cases hc
    | dir entries =>
      have hnode : t.descend? (name :: here).reverse = some c := by
        rw [List.reverse_cons, descend?_append, hhere]
        exact (descend?_cons_of_child? hc).trans rfl
      have hnoLink : ∀ target, c ≠ .link target := by
        rintro target rfl
        cases rest with
        | nil =>
          cases hrest
          exact hu target rfl
        | cons => cases hrest
      cases fuel with
      | zero => rfl
      | succ fuel =>
        rw [walk_name hhere hname hc hnoLink, ih hnode hrest hnames]
        simp

/-! ## Paths below a root -/

theorem length_le_utf8ByteSize (s : String) : s.toList.length ≤ s.utf8ByteSize := by
  have hchars : ∀ cs : List Char, cs.length ≤ (cs.flatMap String.utf8EncodeChar).length := by
    intro cs
    induction cs with
    | nil => exact Nat.le_refl 0
    | cons c cs ih =>
      have := List.length_pos_of_ne_nil (String.utf8EncodeChar_ne_nil (c := c))
      rw [List.flatMap_cons, List.length_append, List.length_cons]
      omega
  have hbytes : (Text.bytes s).length = s.utf8ByteSize := by
    simp [Text.bytes]
  rw [← hbytes, Text.bytes_eq_flatMap]
  exact hchars s.toList

theorem resolve_eq_ok {cwd : List String} {path : String} (h : t.resolve cwd .follow path = .ok (place, u)) :
    Char.ofNat 0 ∉ path.toList ∧ path ≠ "" ∧
      t.walk .follow ((maxLinks + 1) * (maxPathLength + 1)) maxLinks
        (if path.toList.head? == some '/' then [] else cwd.reverse) (pieces path) = .ok (place, u) := by
  unfold resolve at h
  split at h
  · cases h
  split at h
  · cases h
  split at h
  · cases h
  exact ⟨by simpa using ‹¬ path.toList.contains _ = true›, by simpa using ‹¬ path.isEmpty = true›, h⟩

theorem resolve_of_walk {cwd : List String} {path : String} (hnul : Char.ofNat 0 ∉ path.toList) (hempty : path ≠ "")
    (hlength : path.utf8ByteSize < maxPathLength) :
    t.resolve cwd .follow path = t.walk .follow ((maxLinks + 1) * (maxPathLength + 1)) maxLinks
      (if path.toList.head? == some '/' then [] else cwd.reverse) (pieces path) := by
  rw [resolve, if_neg (by simpa using hnul), if_neg (by simpa using hempty), if_neg (Nat.not_le.mpr hlength)]

theorem resolve_of_long {cwd : List String} {path : String} (hnul : Char.ofNat 0 ∉ path.toList) (hempty : path ≠ "")
    (hlength : maxPathLength ≤ path.utf8ByteSize) : t.resolve cwd .follow path = .error .nameTooLong := by
  rw [resolve, if_neg (by simpa using hnul), if_neg (by simpa using hempty), if_pos hlength]

theorem ne_empty_of_pieces {before : List String} {path : String} (hpieces : pieces path = before ++ names)
    (hne : names ≠ []) (hnames : ∀ name ∈ names, storable name) : path ≠ "" := by
  rintro rfl
  rw [show pieces "" = [""] by decide] at hpieces
  have hlast : names.getLast? = some "" := by
    rw [← List.getLast?_append_of_ne_nil before hne, ← hpieces]
    rfl
  exact (hnames "" (List.mem_of_getLast? hlast)).1 (by decide)

/-- Empty names and points lead nowhere else. -/
theorem walk_stay (hname : name = "" ∨ name = ".") (hnames : ∀ name ∈ names, name = "" ∨ name = ".")
    (h : t.walk .follow fuel links here (name :: names) = .ok (place, u)) :
    t.walk .follow fuel links here names = .ok (place, u) := by
  have hstep : ∀ {name names left entries}, (name = "" ∨ name = ".") →
      t.descend? here.reverse = some (.dir entries) →
      t.walk .follow (left + 1) links here (name :: names) = t.walk .follow left links here names := by
    rintro name names left entries (rfl | rfl) hd <;> simp only [walk, hd]
  induction names generalizing fuel name with
  | nil =>
    obtain ⟨left, entries, rfl, hd⟩ := directory_of_walk h
    rw [hstep hname hd] at h
    cases left with
    | zero => cases h
    | succ left => rwa [walk_nil hd] at h ⊢
  | cons next rest ih =>
    obtain ⟨left, entries, rfl, hd⟩ := directory_of_walk h
    obtain ⟨hnext, hrest⟩ := List.forall_mem_cons.mp hnames
    rw [hstep hname hd] at h
    rw [hstep hnext hd]
    exact ih hnext hrest h

/-- A path whose names go on from a directory leads to what they lead to there. -/
theorem resolve_names (ht : t.Linkless) {cwd before : List String} {path : String}
    (hnul : Char.ofNat 0 ∉ path.toList) (hlength : path.utf8ByteSize < maxPathLength)
    (hpieces : pieces path = before ++ names)
    (hwalk : t.walk .follow fuel maxLinks (if path.toList.head? == some '/' then [] else cwd.reverse) before =
      .ok (place, d))
    (hd : d.descend? names = some u) (hne : names ≠ []) (hnames : ∀ name ∈ names, storable name) :
    t.resolve cwd .follow path = .ok (names.reverse ++ place, u) := by
  have hcount : before.length + names.length ≤ maxPathLength := by
    have hslashes : (pieces path).length = path.toList.count '/' + 1 := Glob.length_segments path
    have hchars : path.toList.count '/' ≤ path.toList.length := List.count_le_length
    have hbytes := length_le_utf8ByteSize path
    rw [hpieces, List.length_append] at hslashes
    omega
  have hempty := ne_empty_of_pieces hpieces hne hnames
  obtain ⟨n, hn⟩ : ∃ n, (maxLinks + 1) * (maxPathLength + 1) = before.length + n :=
    ⟨_, (Nat.add_sub_cancel' (by simp only [maxLinks, maxPathLength] at *; omega)).symm⟩
  rw [resolve_of_walk hnul hempty hlength, hpieces, hn, walk_append ht hwalk]
  have hnoLink : ∀ target, u ≠ .link target := by
    rintro target rfl
    cases (ht.descend? (descend?_of_walk hwalk)).descend? hd
  rw [walk_of_descend? (descend?_of_walk hwalk) hd hnoLink hnames, if_pos]
  simp only [maxLinks, maxPathLength] at *
  omega

end

end FileTree

namespace Local

open FileTree (storable pieces maxPathLength)
open Glob (joinSegments)

theorem pieces_joinSegments {names : List String} (hne : names ≠ []) (hnames : ∀ name ∈ names, storable name) :
    pieces (joinSegments names) = names :=
  Glob.segments_joinSegments hne fun name hname => (hnames name hname).2.1

theorem pieces_append (s s' : String) : pieces (s ++ "/" ++ s') = pieces s ++ pieces s' := by
  have htext : (s ++ "/" ++ s').toList = s.toList ++ '/' :: s'.toList := by simp
  rw [pieces, htext, splitOn_append, List.map_append]
  rfl

theorem nul_not_mem {names : List String} (hnames : ∀ name ∈ names, storable name) :
    Char.ofNat 0 ∉ (joinSegments names).toList := by
  intro hmem
  rw [joinSegments, String.toList_ofList] at hmem
  rcases mem_joinWith hmem with heq | ⟨piece, hpiece, hmem⟩
  · exact absurd heq (by decide)
  · obtain ⟨name, hname, rfl⟩ := List.mem_map.mp hpiece
    exact (hnames name hname).2.2.1 hmem

theorem head?_ne_slash {path : String} (h : "" ∉ pieces path) : path.toList.head? ≠ some '/' := by
  intro hhead
  obtain ⟨rest, hrest⟩ := List.head?_eq_some_iff.mp hhead
  rw [pieces, hrest, splitOn, if_pos rfl, List.map_cons] at h
  exact h List.mem_cons_self

theorem head?_joinSegments {names : List String} (hne : names ≠ []) (hnames : ∀ name ∈ names, storable name) :
    (joinSegments names).toList.head? ≠ some '/' := by
  apply head?_ne_slash
  rw [pieces_joinSegments hne hnames]
  intro hempty
  exact (hnames "" hempty).1 (by decide)

/-- The path of a file below the root of a listing is walked as the root is, and on from there by the names. -/
theorem exists_pieces_below {t d : FileTree} {cwd site place names : List String}
    (hroot : t.resolve cwd .follow (rootDirectory site) = .ok (place, d)) (hne : names ≠ [])
    (hnames : ∀ name ∈ names, storable name) :
    ∃ before, pieces (below site (joinSegments names)) = before ++ names ∧
      Char.ofNat 0 ∉ (below site (joinSegments names)).toList ∧
      t.walk .follow ((FileTree.maxLinks + 1) * (maxPathLength + 1)) FileTree.maxLinks
        (if (below site (joinSegments names)).toList.head? == some '/' then [] else cwd.reverse) before =
          .ok (place, d) := by
  have hpieces := pieces_joinSegments hne hnames
  have hnul := nul_not_mem hnames
  obtain ⟨hrootNul, -, hwalk⟩ := FileTree.resolve_eq_ok hroot
  by_cases hsite : site = []
  · -- the names begin in the working directory
    subst hsite
    have hhead : ((below [] (joinSegments names)).toList.head? == some '/') = false := by
      simpa [below] using head?_joinSegments hne hnames
    rw [show pieces (rootDirectory []) = ["."] by decide,
      show ((rootDirectory []).toList.head? == some '/') = false by decide, ← hhead] at hwalk
    exact ⟨[], hpieces, hnul, FileTree.walk_stay (.inr rfl) (by simp) hwalk⟩
  have hbelow : below site (joinSegments names) = joinSegments site ++ "/" ++ joinSegments names :=
    if_neg (by simpa using hsite)
  have hbelowPieces := pieces_append (joinSegments site) (joinSegments names)
  rw [hpieces] at hbelowPieces
  have hbelowNul : Char.ofNat 0 ∉ (joinSegments site).toList →
      Char.ofNat 0 ∉ (joinSegments site ++ "/" ++ joinSegments names).toList := by
    intro hsiteNul
    simp only [String.toList_append, List.mem_append, not_or]
    exact ⟨⟨hsiteNul, by decide⟩, hnul⟩
  rw [hbelow]
  by_cases htext : joinSegments site = ""
  · -- they begin at the root of the disk
    have hdirectory : rootDirectory site = "/" := by simp [rootDirectory, hsite, htext]
    have hhead : (joinSegments site ++ "/" ++ joinSegments names).toList.head? = "/".toList.head? := by simp [htext]
    have hfirst : pieces (joinSegments site) = [""] := by
      rw [htext]
      decide
    rw [hdirectory, show pieces "/" = ["", ""] by decide, ← hhead] at hwalk
    rw [hfirst] at hbelowPieces
    exact ⟨[""], hbelowPieces, hbelowNul (by simp [htext]), FileTree.walk_stay (.inl rfl) (by simp) hwalk⟩
  · -- they go on from the root of the listing
    have hdirectory : rootDirectory site = joinSegments site := by simp [rootDirectory, hsite, htext]
    rw [hdirectory] at hwalk hrootNul
    have hhead : (joinSegments site ++ "/" ++ joinSegments names).toList.head? = (joinSegments site).toList.head? := by
      obtain ⟨c, cs, hcs⟩ := List.exists_cons_of_ne_nil (show (joinSegments site).toList ≠ [] by simpa using htext)
      simp [hcs]
    rw [← hhead] at hwalk
    exact ⟨_, hbelowPieces, hbelowNul hrootNul, hwalk⟩

/-- The path of a file below the root of a listing leads to the file. -/
theorem resolve_below {t d u : FileTree} {cwd site place names : List String} (ht : t.Linkless)
    (hroot : t.resolve cwd .follow (rootDirectory site) = .ok (place, d)) (hd : d.descend? names = some u)
    (hne : names ≠ []) (hnames : ∀ name ∈ names, storable name)
    (hlength : (below site (joinSegments names)).utf8ByteSize < maxPathLength) :
    t.resolve cwd .follow (below site (joinSegments names)) = .ok (names.reverse ++ place, u) := by
  obtain ⟨before, hpieces, hnul, hwalk⟩ := exists_pieces_below hroot hne hnames
  exact FileTree.resolve_names ht hnul hlength hpieces hwalk hd hne hnames

/-- Where there are links it leads there too, unless the path is too long or the links on its way are too many. -/
theorem resolve_below_or {t d u : FileTree} {cwd site place names : List String}
    (hroot : t.resolve cwd .follow (rootDirectory site) = .ok (place, d)) (hd : d.descend? names = some u)
    (hu : ∀ target, u ≠ .link target) (hne : names ≠ []) (hnames : ∀ name ∈ names, storable name) :
    t.resolve cwd .follow (below site (joinSegments names)) = .ok (names.reverse ++ place, u) ∨
      t.resolve cwd .follow (below site (joinSegments names)) = .error .nameTooLong ∨
      t.resolve cwd .follow (below site (joinSegments names)) = .error .linkLoop := by
  obtain ⟨before, hpieces, hnul, hwalk⟩ := exists_pieces_below hroot hne hnames
  have hempty : below site (joinSegments names) ≠ "" := FileTree.ne_empty_of_pieces hpieces hne hnames
  by_cases hlength : (below site (joinSegments names)).utf8ByteSize < maxPathLength
  · obtain ⟨left, links, hmore⟩ := FileTree.exists_walk_append hwalk
    have hend := FileTree.descend?_of_walk hwalk
    rw [FileTree.resolve_of_walk hnul hempty hlength, hpieces, hmore,
      FileTree.walk_of_descend? hend hd hu hnames]
    split
    · exact .inl rfl
    · exact .inr (.inr rfl)
  · exact .inr (.inl (FileTree.resolve_of_long hnul hempty (Nat.not_lt.mp hlength)))

end Local

end Transclusion
