import Transclusion.Dispatch
import Transclusion.Proofs.Listings.Pages
import Transclusion.Proofs.Listings.Paths
import Transclusion.Proofs.Results
import Transclusion.Proofs.Runs
import Transclusion.Proofs.Targets.Parts

/-!
# Opening what is listed

A listing gives paths as texts, and a path is taken apart again when it is opened: it may name a scheme, it is
walked from a directory, name after name.

* `Fault.kind`, `Checked` : failures by what they are, and options that are refused for any path;
* `Local.glob_eq_listed`, `Local.openOne_eq` : a tree is listed, and its files are opened, without effects;
* `Local.mem_listed` : what is listed are files below the root of the pattern;
* `Backend.byScheme_openOne` : paths that are left to the disk;
* `Backend.opens_listed` : a path that is listed opens the file that was matched.
-/

namespace Transclusion

open Text

/-! ## Kinds of failures -/

inductive FaultKind where
  | notFound
  | invalidDirective
  | flattenNotSequence
  | config
  | unsupportedScheme
  | unsupportedFormat
  | parse
  | notMutable
  | io (operation : String) (kind : IoKind)
  | http
  | httpStatus
  | yaml
  deriving DecidableEq

def Fault.kind : Fault → FaultKind
  | notFound _ => .notFound
  | invalidDirective _ => .invalidDirective
  | flattenNotSequence _ _ => .flattenNotSequence
  | config _ => .config
  | unsupportedScheme _ _ => .unsupportedScheme
  | unsupportedFormat _ => .unsupportedFormat
  | parse _ _ => .parse
  | notMutable _ => .notMutable
  | io operation _ cause => .io operation cause.kind
  | http _ _ => .http
  | httpStatus _ _ => .httpStatus
  | yaml _ => .yaml

theorem Fault.isNotFound_of_config {f : Fault} (h : f.kind = .config) : f.isNotFound = false := by
  cases f <;> first | rfl | cases h

/-! ## Options -/

section
variable {γ : Type} {x x' : Except Fault γ}

inductive Checked : (x x' : Except Fault γ) → Prop
  | passed (c : γ) : Checked (.ok c) (.ok c)
  | refused {f g : Fault} (hf : f.kind = .config) (hg : g.kind = .config) : Checked (.error f) (.error g)

theorem Checked.refl (h : ∀ f, x = .error f → f.kind = .config) : Checked x x := by
  cases x with
  | ok c => exact .passed c
  | error f => exact .refused (h f rfl) (h f rfl)

theorem Checked.guard {p : Prop} [Decidable p] {f g : Fault} (hf : f.kind = .config) (hg : g.kind = .config)
    (h : Checked x x') : Checked (if p then .error f else x) (if p then .error g else x') := by
  split
  · exact .refused hf hg
  · exact h

theorem Checked.kind {f : Fault} (h : Checked x x') (hf : x = .error f) : f.kind = .config := by
  cases h with
  | passed c => cases hf
  | refused hf' hg =>
    cases hf
    exact hf'

end

theorem kind_of_depth {v : Value} {f : Fault} (h : depth v = .error f) : f.kind = .config := by
  unfold depth at h
  repeat' split at h
  all_goals cases h
  all_goals rfl

theorem Glob.checked_limitOfArgs (pattern other : String) (args : Args) :
    Checked (limitOfArgs pattern args) (limitOfArgs other args) := by
  unfold limitOfArgs
  refine .guard rfl rfl (.guard rfl rfl (.refl fun f h => ?_))
  split at h
  · exact kind_of_depth h
  · cases h

namespace Local

open FileTree (storable pieces)
open Glob (joinSegments)

theorem plainPath_of_scheme? {s : String} (h : Target.scheme? s = none) : plainPath s = s := by
  unfold plainPath
  split
  · rename_i rest hrest
    have htext : s.toList = "file".toList ++ ':' :: ('/' :: '/' :: rest) := by
      rw [dropHead?_eq_some.mp hrest]
      rfl
    exact absurd (Target.scheme?_eq_none_iff.mp h _ _ htext (by decide)) (by decide)
  · rfl

theorem plainPath_fileUrl (path : String) : plainPath ("file://" ++ path) = path := by
  have hcut : dropHead? "file://".toList ("file://" ++ path).toList = some path.toList :=
    dropHead?_eq_some.mpr (String.toList_append ..)
  rw [plainPath, hcut]
  exact String.ofList_toList

/-- Names have none of them empty, so that they spell no `file://`. -/
theorem plainPath_joinSegments {names : List String} (hne : names ≠ []) (hnames : ∀ name ∈ names, storable name) :
    plainPath (joinSegments names) = joinSegments names := by
  unfold plainPath
  split
  · rename_i rest hrest
    have htext : (joinSegments names).toList = "file:".toList ++ '/' :: ('/' :: rest) := by
      rw [dropHead?_eq_some.mp hrest]
      rfl
    have hpieces := pieces_joinSegments hne hnames
    rw [pieces, htext, splitOn_append, splitOn, if_pos rfl] at hpieces
    have hempty : "" ∈ names := by
      rw [← hpieces]
      simp
    exact absurd (hnames "" hempty).1 (by decide)
  · rfl

theorem joinSegments_append {a b : List String} (ha : a ≠ []) (hb : b ≠ []) :
    joinSegments (a ++ b) = joinSegments a ++ "/" ++ joinSegments b := by
  induction a with
  | nil => exact absurd rfl ha
  | cons s a ih =>
    cases a with
    | nil => rw [List.singleton_append, Glob.joinSegments_cons s hb, Glob.joinSegments_singleton]
    | cons s' a =>
      rw [List.cons_append, Glob.joinSegments_cons s (by simp), ih (by simp), Glob.joinSegments_cons s (by simp)]
      simp only [String.append_assoc]

theorem joinSegments_splitRoot {pattern : String} {site rest : List String}
    (h : Glob.splitRoot pattern = (site, rest)) : joinSegments (site ++ rest) = pattern := by
  rw [Glob.splitRoot_eq] at h
  obtain ⟨rfl, rfl⟩ := Prod.mk.inj h
  rw [List.takeWhile_append_dropWhile, Glob.joinSegments_segments]

/-! ## What a listing gives -/

/-- A path below a directory is that of a file there, by names that lead to it. -/
def FoundBelow (t : FileTree) (cwd : List String) (ok : String → Prop) (base relative : String) : Prop :=
  ∃ place dir names bytes, t.resolve cwd .follow base = .ok (place, dir) ∧ dir.descend? names = some (.file bytes) ∧
    relative = joinNames names ∧ names ≠ [] ∧ ∀ name ∈ names, ok name

theorem kind_of_matcher {pattern : String} {f : Fault} (h : Glob.matcher pattern = .error f) : f.kind = .config := by
  unfold Glob.matcher at h
  split at h
  · cases h
  · cases h
    rfl

section
variable {m : Type → Type} [Monad m] [LawfulMonad m] {t : FileTree} {cwd : List String} {ok : String → Prop}
  {pattern : String} {args : Args} {site rest paths : List String}

def matched (t : FileTree) (cwd : List String) (p : Glob.Matcher) (base : String) (limit : Option Nat) :
    Except Fault (List String) :=
  match t.filesBelow cwd base limit with
  | .ok found => .ok ((found.map joinNames).filter p.accepts)
  | .error f => if f.kind = .notFound then .ok [] else .error (.io "listing" base f)

def listed (t : FileTree) (cwd : List String) (pattern : String) (args : Args) : Except Fault (List String) :=
  (Glob.limitOfArgs pattern args).bind fun maxdepth =>
    let path := plainPath pattern
    let (root, rest) := Glob.splitRoot path
    if rest.isEmpty then
      .ok (match t.resolve cwd .follow path with
        | .ok (_, .file _) => [path]
        | _ => [])
    else
      (Glob.matcher (joinSegments rest)).bind fun p =>
        (matched t cwd p (rootDirectory root) (Glob.depthLimit rest maxdepth)).bind fun found =>
          .ok ((found.map (below root)).mergeSort fun a b => a ≤ b)

theorem listed_eq_ok {pattern : String} {args : Args} {root rest found : List String}
    (hsplit : Glob.splitRoot (plainPath pattern) = (root, rest)) (hrest : rest.isEmpty = false)
    (hfound : ((Glob.limitOfArgs pattern args).bind fun maxdepth => (Glob.matcher (joinSegments rest)).bind fun p =>
      matched t cwd p (rootDirectory root) (Glob.depthLimit rest maxdepth)) = .ok found) :
    listed t cwd pattern args = .ok ((found.map (below root)).mergeSort fun a b => a ≤ b) := by
  obtain ⟨maxdepth, hlimit, hfound⟩ := exists_of_bind_eq_ok hfound
  obtain ⟨p, hp, hfound⟩ := exists_of_bind_eq_ok hfound
  simp [listed, hlimit, Except.bind, hsplit, hrest, hp, hfound]

theorem matchesBelow_eq (p : Glob.Matcher) (base : String) (limit : Option Nat) :
    matchesBelow (m := m) (t.disk cwd) p base limit = Run.ofExcept (matched t cwd p base limit) := by
  simp only [matchesBelow, matched, FileTree.disk, liftM_pure, pure_bind]
  cases t.filesBelow cwd base limit with
  | ok found => rfl
  | error f =>
    dsimp only
    split <;> rfl

theorem glob_eq_listed (pattern : String) (args : Args) :
    glob (m := m) (t.disk cwd) pattern args = Run.ofExcept (listed t cwd pattern args) := by
  unfold glob listed
  rw [Run.ofExcept_bind]
  refine bind_congr fun maxdepth => ?_
  dsimp only
  split
  · simp only [FileTree.disk, liftM_pure, pure_bind]
    rcases t.resolve cwd .follow (plainPath pattern) with f | ⟨place, d⟩
    · rfl
    · cases d <;> rfl
  · rw [Run.ofExcept_bind]
    refine bind_congr fun p => ?_
    rw [matchesBelow_eq, Run.ofExcept_bind]
    rfl

theorem foundBelow_of_matched {p : Glob.Matcher} {base : String} {limit : Option Nat} {found : List String}
    (h : matched t cwd p base limit = .ok found) (htidy : t.Tidy ok) {relative : String}
    (hrelative : relative ∈ found) : FoundBelow t cwd ok base relative := by
  unfold matched at h
  split at h
  · rename_i below hbelow
    obtain rfl := Except.ok.inj h
    obtain ⟨names, hnames, rfl⟩ := List.mem_map.mp (List.mem_of_mem_filter hrelative)
    obtain ⟨⟨place, d⟩, hplace, hfound⟩ := exists_of_bind_eq_ok hbelow
    cases d with
    | dir entries =>
      obtain rfl := Except.ok.inj hfound
      have hentries := htidy.of_resolve hplace
      obtain ⟨⟨bytes, hfile⟩, -⟩ := hentries.mem_filesIn.mp hnames
      exact ⟨place, .dir entries, names, bytes, hplace, hfile, rfl, FileTree.ne_nil_of_descend?_file hfile,
        (hentries.descend? hfile).2⟩
    | file | link =>
      obtain rfl := Except.ok.inj hfound
      cases hnames
  · split at h
    · obtain rfl := Except.ok.inj h
      cases hrelative
    · cases h

theorem exists_io_of_matched {p : Glob.Matcher} {base : String} {limit : Option Nat} {f : Fault}
    (h : matched t cwd p base limit = .error f) : ∃ cause, f = .io "listing" base cause := by
  unfold matched at h
  split at h
  · cases h
  split at h
  · cases h
  · cases h
    exact ⟨_, rfl⟩

/-- What is listed below the root of a pattern are files there. -/
theorem mem_listed (hsplit : Glob.splitRoot (plainPath pattern) = (site, rest)) (hrest : rest ≠ [])
    (h : listed t cwd pattern args = .ok paths) {path : String} (hpath : path ∈ paths) :
    ∃ relative, path = below site relative ∧ (t.Tidy ok → FoundBelow t cwd ok (rootDirectory site) relative) := by
  have hempty : rest.isEmpty = false := by simpa using hrest
  simp only [listed, hsplit, hempty, Bool.false_eq_true, if_false] at h
  obtain ⟨maxdepth, -, h⟩ := exists_of_bind_eq_ok h
  obtain ⟨p, -, h⟩ := exists_of_bind_eq_ok h
  obtain ⟨found, hfound, h⟩ := exists_of_bind_eq_ok h
  obtain rfl := Except.ok.inj h
  rw [List.mem_mergeSort] at hpath
  obtain ⟨relative, hrelative, rfl⟩ := List.mem_map.mp hpath
  exact ⟨relative, rfl, fun htidy => foundBelow_of_matched hfound htidy hrelative⟩

theorem isNotFound_of_listed {f : Fault} (h : listed t cwd pattern args = .error f) : f.isNotFound = false := by
  unfold listed at h
  refine forall_error_bind (fun _ hf => Fault.isNotFound_of_config ((Glob.checked_limitOfArgs _ pattern _).kind hf))
    (fun maxdepth f hf => ?_) f h
  dsimp only at hf
  split at hf
  · cases hf
  · refine forall_error_bind (fun _ hf => Fault.isNotFound_of_config (kind_of_matcher hf)) (fun p f hf => ?_) f hf
    refine forall_error_bind (P := fun f => f.isNotFound = false) (fun f hf => ?_) (fun _ _ h => by cases h) f hf
    obtain ⟨cause, rfl⟩ := exists_io_of_matched hf
    rfl

theorem joinNames_of_no_backslash {names : List String} (hnames : ∀ name ∈ names, storable name)
    (h : ∀ name ∈ names, '\\' ∉ name.toList) : joinNames names = joinSegments names :=
  joinNames_eq fun name hname => ⟨(hnames name hname).2.1, h name hname⟩

/-- What a path opens, after its options are checked. A directory is opened, and cannot be read. -/
def opened (t : FileTree) (cwd : List String) (path : String) (args : Args) : Except Fault Opened :=
  (OpenOptions.check path args []).bind fun compression =>
    match t.resolve cwd .follow (plainPath path) with
    | .ok (_, .file bytes) => .ok ⟨path, compression.unpack path (.ofBytes bytes)⟩
    | .ok _ => .ok ⟨path, compression.unpack path (.unreadable .isADirectory)⟩
    | .error f => .error (.ofIo "opening" path f)

theorem openOne_eq (path : String) (args : Args) :
    openOne (m := m) (t.disk cwd) path args = Run.ofExcept (opened t cwd path args) := by
  unfold openOne opened
  cases OpenOptions.check path args [] with
  | error f => exact Run.raise_bind f _
  | ok compression =>
    simp only [Run.ofExcept, pure_bind, FileTree.disk, liftM_pure]
    cases t.resolve cwd .follow (plainPath path) with
    | error f => rfl
    | ok node =>
      obtain ⟨place, d⟩ := node
      cases d <;> rfl

end

end Local

namespace Backend

open FileTree (storable maxPathLength)
open Glob (joinSegments)

theorem choose_of_scheme? {m : Type → Type} {files web : Backend m} {path : String}
    (h : Target.scheme? path = none ∨ Target.scheme? path = some "file") : choose files web path = .ok files := by
  rcases h with h | h <;> simp [choose, h]

section
variable {m : Type → Type} [Monad m] [LawfulMonad m] {files web : Backend m} {path : String} {args : Args}

theorem byScheme_glob (h : Target.scheme? path = none ∨ Target.scheme? path = some "file") :
    (byScheme files web).glob path args = files.glob path args := by
  simp [byScheme, choose_of_scheme? h, Run.ofExcept]

theorem byScheme_openOne (h : Target.scheme? path = none ∨ Target.scheme? path = some "file") :
    (byScheme files web).openOne path args = files.openOne path args := by
  simp [byScheme, choose_of_scheme? h, Run.ofExcept]

theorem byScheme_openMatching (h : Target.scheme? path = none ∨ Target.scheme? path = some "file") :
    (byScheme files web).openMatching path args = files.openMatching path args := by
  simp [byScheme, choose_of_scheme? h, Run.ofExcept]

end

/-- Each path that a pattern without a scheme lists is that of a file below the root of the pattern. If no name on
the way to the file has a backslash in it, the path is no longer than a disk takes, and the names alone spell no
scheme, then the path leads to that file, and opens it. -/
theorem opens_listed (t : FileTree) (cwd : List String) (web : Web Id) (settings : Http.Settings) {pattern : String}
    {args : Args} {site rest paths : List String} (htidy : t.Tidy storable) (hlinkless : t.Linkless)
    (hscheme : Target.scheme? pattern = none) (hwild : Path.hasWildcard pattern = true)
    (hsplit : Glob.splitRoot pattern = (site, rest))
    (hglob : (standard (t.disk cwd) web settings).glob pattern args = pure paths) :
    ∀ path ∈ paths, ∃ place dir names bytes,
      t.resolve cwd .follow (Local.rootDirectory site) = .ok (place, dir) ∧
      dir.descend? names = some (.file bytes) ∧ path = Local.below site (Local.joinNames names) ∧
      ((∀ name ∈ names, '\\' ∉ name.toList) → path.utf8ByteSize < maxPathLength →
        (site = [] → Target.scheme? path = none ∨ Target.scheme? path = some "file") →
        t.resolve cwd .follow path = .ok (names.reverse ++ place, .file bytes) ∧
          (standard (t.disk cwd) web settings).openOne path {} = pure ⟨path, .ofBytes bytes⟩) := by
  intro path hpath
  have hrest : rest ≠ [] := by
    have := Glob.splitRoot_snd_ne_nil hwild
    rwa [hsplit] at this
  rw [standard, byScheme_glob (.inl hscheme)] at hglob
  have hplain := Local.plainPath_of_scheme? hscheme
  change Local.glob (t.disk cwd) pattern args = _ at hglob
  rw [Local.glob_eq_listed, Run.ofExcept_eq_pure_iff] at hglob
  obtain ⟨_, rfl, hbelow⟩ := Local.mem_listed (by rw [hplain, hsplit]) hrest hglob hpath
  obtain ⟨place, dir, names, bytes, hplace, hfile, rfl, hne, hnames⟩ := hbelow htidy
  refine ⟨place, dir, names, bytes, hplace, hfile, rfl, fun hslashes hlength hsite => ?_⟩
  rw [Local.joinNames_of_no_backslash hnames hslashes] at hlength hsite ⊢
  have hresolve := Local.resolve_below hlinkless hplace hfile hne hnames hlength
  -- below a root the path names a scheme only if the pattern does
  have hbelow : site ≠ [] → Target.scheme? (Local.below site (joinSegments names)) = none := by
    intro hnil
    rw [Local.below, if_neg (by simpa using hnil)]
    rw [← Local.joinSegments_splitRoot hsplit, Local.joinSegments_append hnil hrest,
      Target.scheme?_append_slash] at hscheme
    rw [Target.scheme?_append_slash, hscheme]
  have hpathScheme : Target.scheme? (Local.below site (joinSegments names)) = none ∨
      Target.scheme? (Local.below site (joinSegments names)) = some "file" := by
    by_cases hnil : site = []
    · exact hsite hnil
    · exact .inl (hbelow hnil)
  have hpathPlain : Local.plainPath (Local.below site (joinSegments names)) =
      Local.below site (joinSegments names) := by
    by_cases hnil : site = []
    · subst hnil
      exact Local.plainPath_joinSegments hne hnames
    · exact Local.plainPath_of_scheme? (hbelow hnil)
  refine ⟨hresolve, ?_⟩
  rw [standard, byScheme_openOne hpathScheme]
  change Local.openOne (t.disk cwd) _ {} = _
  rw [Local.openOne_eq, Local.opened, hpathPlain, hresolve]
  rfl

def alone (bytes : ByteArray) : List String → FileTree
  | [] => .file bytes
  | name :: rest => .dir [(name, alone bytes rest)]

theorem alone_tidy {ok : String → Prop} (bytes : ByteArray) {names : List String} (h : ∀ name ∈ names, ok name) :
    (alone bytes names).Tidy ok := by
  induction names with
  | nil => exact .file bytes
  | cons name rest ih =>
    obtain ⟨hname, hrest⟩ := List.forall_mem_cons.mp h
    exact .dir (List.nodup_singleton _) (List.forall_mem_singleton.mpr hname) (List.forall_mem_singleton.mpr (ih hrest))

theorem alone_linkless (bytes : ByteArray) (names : List String) : (alone bytes names).Linkless := by
  induction names with
  | nil => exact .file bytes
  | cons name rest ih => exact .dir (List.forall_mem_singleton.mpr ih)

theorem opens_listed_colon :
    (alone .empty ["conf", "a", "b:c.yaml"]).Tidy storable ∧ Target.scheme? "conf/*/*.yaml" = none ∧
      (standard ((alone .empty ["conf", "a", "b:c.yaml"]).disk []) (.unreachable : Web Id) {}).glob "conf/*/*.yaml" {} =
        pure ["conf/a/b:c.yaml"] ∧
      (standard ((alone .empty ["conf", "a", "b:c.yaml"]).disk []) (.unreachable : Web Id) {}).openOne
        "conf/a/b:c.yaml" {} = pure ⟨"conf/a/b:c.yaml", .ofBytes .empty⟩ := by
  have htidy : (alone .empty ["conf", "a", "b:c.yaml"]).Tidy storable := alone_tidy .empty (by decide)
  have hplain : (alone .empty ["conf", "a", "b:c.yaml"]).Tidy Local.plainName := alone_tidy .empty (by decide)
  have hscheme : Target.scheme? "conf/*/*.yaml" = none := by decide
  have hglob : (standard ((alone .empty ["conf", "a", "b:c.yaml"]).disk []) (.unreachable : Web Id) {}).glob
      "conf/*/*.yaml" {} = pure ["conf/a/b:c.yaml"] := Run.eq_pure_iff_toOption.mpr (by decide +kernel)
  obtain ⟨place, dir, names, bytes, hplace, hfile, -, hopens⟩ :=
    opens_listed (alone .empty ["conf", "a", "b:c.yaml"]) [] .unreachable {} htidy (alone_linkless _ _) hscheme
      (by decide) (show Glob.splitRoot "conf/*/*.yaml" = (["conf"], ["*", "*.yaml"]) by decide) hglob _
      List.mem_cons_self
  obtain ⟨hresolve, hopen⟩ := hopens (fun name hname => ((hplain.of_resolve hplace).descend? hfile).2 name hname |>.2)
    (by decide) (by simp)
  have hresolved : (alone .empty ["conf", "a", "b:c.yaml"]).resolve [] .follow "conf/a/b:c.yaml" =
      .ok (["b:c.yaml", "a", "conf"], .file .empty) := rfl
  obtain ⟨-, heq⟩ := Prod.mk.inj (Except.ok.inj (hresolve.symm.trans hresolved))
  cases heq
  exact ⟨htidy, hscheme, hglob, hopen⟩

/-- Two files that are listed, and not opened: the name of the one spells a scheme, the other is looked for in a
directory that is not there. -/
theorem listed_not_opened :
    ((alone .empty ["ab:c.yaml"]).Tidy storable ∧
      (standard ((alone .empty ["ab:c.yaml"]).disk []) (.unreachable : Web Id) {}).glob "*.yaml" {} =
        pure ["ab:c.yaml"] ∧
      (standard ((alone .empty ["ab:c.yaml"]).disk []) (.unreachable : Web Id) {}).openOne "ab:c.yaml" {} =
        Run.raise (.unsupportedScheme "ab" "ab:c.yaml")) ∧
    (alone .empty ["a\\b.yaml"]).Tidy storable ∧
      (standard ((alone .empty ["a\\b.yaml"]).disk []) (.unreachable : Web Id) {}).glob "*/*.yaml" {} =
        pure ["a/b.yaml"] ∧
      (standard ((alone .empty ["a\\b.yaml"]).disk []) (.unreachable : Web Id) {}).openOne "a/b.yaml" {} =
        Run.raise (.notFound "a/b.yaml") := by
  have hscheme : Target.scheme? "ab:c.yaml" = some "ab" := by decide +kernel
  refine ⟨⟨alone_tidy .empty (by decide), Run.eq_pure_iff_toOption.mpr (by decide +kernel), ?_⟩,
    alone_tidy .empty (by decide), Run.eq_pure_iff_toOption.mpr (by decide +kernel), rfl⟩
  simp [standard, byScheme, choose, hscheme, Run.ofExcept, Run.raise_bind]

end Backend
end Transclusion
