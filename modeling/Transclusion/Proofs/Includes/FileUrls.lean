import Transclusion.Proofs.Includes.Assembly
import Transclusion.Proofs.Includes.Raised
import Transclusion.Proofs.Listings.Opening
import Transclusion.Proofs.Targets.Routes

/-!
# Patterns by path and by URL

An include of the files of a pattern opens each file when its turn comes. With `file://` in front of the pattern it
opens them all before it reads the first.

* `Includer.SamePattern` : two includes that differ in nothing else;
* `Includer.gather_opened` : files that are opened without effects may as well be open before;
* `Local.opened_below` : files with plain names are there when they are opened;
* `Includer.found_fileUrl` : what is found by URL is what is found by path;
* `Includer.resolve_fileUrl` : the two includes give the same values.
-/

namespace Transclusion

open Run

variable {σ α : Type}

namespace Includer

/-- How deep directories are listed, as parameters of an include by path and of one by URL. -/
inductive SameDepth : (byPath byUrl : Entries) → Prop
  | unlimited : SameDepth [] []
  | limited (n : Nat) : SameDepth [(.string "glob", .mapping [(.string depthKey, .ofNat n)])]
      [(.string depthKey, .ofNat n)]

structure SamePattern (pattern : String) (byPath byUrl : Directive) : Prop where
  path : byPath.target = pattern
  url : byUrl.target = "file://" ++ pattern
  pathPositional : byPath.positional = []
  urlPositional : byUrl.positional = []
  depth : SameDepth byPath.named byUrl.named
  flatten : byUrl.flatten = byPath.flatten
  default : byUrl.default = byPath.default

/-! ## Gathering -/

section Gathering
variable {parse : String → Content → Run (StateM σ) Value} {flatten : Bool} {openOne : α → Seek (StateM σ) Opened}
  {y : α → Except Fault Opened} {a : α} {as rest : List α} {s s' : σ} {vs : List Value}

theorem returns_gather_cons : (gather flatten parse openOne (a :: rest)).run.Returns s (.ok vs) s' ↔
    ∃ file s₁ items s₂ more, (openOne a).run.Returns s (.ok file) s₁ ∧
      (do pieces flatten file.path (← parse file.path file.content) : Run (StateM σ) (List Value)).Returns s₁ items s₂ ∧
      (gather flatten parse openOne rest).run.Returns s₂ (.ok more) s' ∧ vs = items ++ more := by
  rw [gather]
  simp only [Seek.returns_bind, Seek.returns_lift, Seek.returns_pure, reduceCtorEq, and_false, exists_false, false_or,
    Except.ok.injEq]
  constructor
  · rintro ⟨file, s₁, hopen, items, s₂, ⟨_, htake, rfl⟩, more, _, hrest, rfl, rfl⟩
    exact ⟨file, s₁, items, s₂, more, hopen, htake, hrest, rfl⟩
  · rintro ⟨file, s₁, items, s₂, more, hopen, htake, hrest, rfl⟩
    exact ⟨file, s₁, hopen, items, s₂, ⟨items, htake, rfl⟩, more, s', hrest, rfl, rfl⟩

/-- **Files that are opened without effects may as well be open before.** Whatever is read of those before it, a file
is opened to the same content. -/
theorem gather_opened (parse : String → Content → Run (StateM σ) Value) (flatten : Bool) (s s' : σ) (vs : List Value)
    (hopen : ∀ a ∈ as, openOne a = Seek.own (Run.ofExcept (y a))) :
    (gather flatten parse openOne as).run.Returns s (.ok vs) s' ↔
      ∃ files, as.mapM y = .ok files ∧ (gather flatten parse pure files).run.Returns s (.ok vs) s' := by
  induction as generalizing s vs with
  | nil =>
    constructor
    · intro h
      exact ⟨[], rfl, h⟩
    · rintro ⟨files, hfiles, h⟩
      cases hfiles
      exact h
  | cons a rest ih =>
    obtain ⟨ha, hrest⟩ := List.forall_mem_cons.mp hopen
    have ih := fun s vs => ih s vs hrest
    rw [returns_gather_cons, ha]
    constructor
    · rintro ⟨file, s₁, items, s₂, more, hfile, htake, hmore, rfl⟩
      obtain ⟨rfl, ⟨_, hy, heq⟩ | ⟨_, -, heq⟩⟩ := Seek.returns_own_ofExcept.mp hfile
      · cases heq
        obtain ⟨files, hfiles, hmore⟩ := (ih _ _).mp hmore
        have hpure : (pure file : Seek (StateM σ) Opened).run.Returns s (.ok file) s := Seek.returns_pure.mpr ⟨rfl, rfl⟩
        exact ⟨file :: files, mapM_cons_eq_ok.mpr ⟨file, files, hy, hfiles, rfl⟩,
          returns_gather_cons.mpr ⟨file, s, items, s₂, more, hpure, htake, hmore, rfl⟩⟩
      · cases heq
    · rintro ⟨_, hfiles, h⟩
      obtain ⟨file, files, hy, hothers, rfl⟩ := mapM_cons_eq_ok.mp hfiles
      obtain ⟨_, _, items, s₂, more, hpure, htake, hmore, rfl⟩ := returns_gather_cons.mp h
      obtain ⟨heq, rfl⟩ := Seek.returns_pure.mp hpure
      cases heq
      exact ⟨file, s, items, s₂, more, Seek.returns_own_ofExcept.mpr ⟨rfl, .inl ⟨file, hy, rfl⟩⟩, htake,
        (ih _ _).mpr ⟨files, hothers, hmore⟩, rfl⟩

/-- What is gathered is missing only if one of the files is. -/
theorem gather_not_missing (h : ∀ a ∈ as, ∀ s q s', ¬ (openOne a).run.Returns s (.error q) s') (q : Missing) :
    ¬ (gather flatten parse openOne as).run.Returns s (.error q) s' := by
  induction as generalizing s q with
  | nil =>
    intro hnil
    cases (Seek.returns_pure.mp hnil).1
  | cons a rest ih =>
    obtain ⟨ha, hrest⟩ := List.forall_mem_cons.mp h
    rw [gather]
    simp only [Seek.returns_bind, Seek.returns_lift, Seek.returns_pure]
    rintro (⟨_, hopen, -⟩ | ⟨file, s₁, -, ⟨_, ⟨_, -, heq⟩, -⟩ | ⟨items, s₂, -, ⟨_, hmore, -⟩ | ⟨_, _, -, heq, -⟩⟩⟩)
    · exact ha _ _ _ hopen
    · cases heq
    · exact ih hrest _ hmore
    · cases heq

/-! ### Sequences -/

section Sequences
variable {z : Except Fault (List α)} {v : Value}

theorem returns_sequence :
    (do let as ← Seek.own (Run.ofExcept z); return .sequence (← gather flatten parse openOne as) :
      Seek (StateM σ) Value).run.Returns s (.ok v) s' ↔
    ∃ as vs, z = .ok as ∧ (gather flatten parse openOne as).run.Returns s (.ok vs) s' ∧ v = .sequence vs := by
  simp only [Seek.returns_bind, Seek.returns_pure, reduceCtorEq, and_false, exists_false, false_or, Except.ok.injEq]
  constructor
  · rintro ⟨as, _, hz, vs, _, hgather, rfl, rfl⟩
    obtain ⟨rfl, ⟨_, hz, heq⟩ | ⟨_, -, heq⟩⟩ := Seek.returns_own_ofExcept.mp hz
    · cases heq
      exact ⟨as, vs, hz, hgather, rfl⟩
    · cases heq
  · rintro ⟨as, vs, rfl, hgather, rfl⟩
    exact ⟨as, s, Seek.returns_own_ofExcept.mpr ⟨rfl, .inl ⟨as, rfl, rfl⟩⟩, vs, s', hgather, rfl, rfl⟩

theorem ends_sequence {x : Except Failure (Except Missing (List Value))}
    (h : (gather flatten parse openOne as).run.Ends s x s') :
    (do let as ← Seek.own (Run.ofExcept (.ok as)); return .sequence (← gather flatten parse openOne as) :
      Seek (StateM σ) Value).run.Ends s (x.map (Except.map .sequence)) s' := by
  have hlisted : (Seek.own (Run.ofExcept (.ok as)) : Seek (StateM σ) (List α)).run.Ends s (.ok (.ok as)) s :=
    Seek.ends_own (Ends.pure as s)
  exact Seek.ends_bind hlisted (Seek.ends_map Value.sequence h)

theorem sequence_not_missing (hz : ∀ f, z = .error f → f.isNotFound = false)
    (h : ∀ as, z = .ok as → ∀ a ∈ as, ∀ s q s', ¬ (openOne a).run.Returns s (.error q) s') (q : Missing) :
    ¬ (do let as ← Seek.own (Run.ofExcept z); return .sequence (← gather flatten parse openOne as) :
      Seek (StateM σ) Value).run.Returns s (.error q) s' := by
  simp only [Seek.returns_bind, Seek.returns_pure]
  rintro (⟨_, hmissing, -⟩ | ⟨as, _, hfound, ⟨_, hmissing, -⟩ | ⟨_, _, -, heq, -⟩⟩)
  · obtain ⟨-, ⟨_, -, heq⟩ | ⟨path, hpath, -⟩⟩ := Seek.returns_own_ofExcept.mp hmissing
    · cases heq
    · cases hz _ hpath
  · obtain ⟨-, ⟨_, hz, heq⟩ | ⟨_, -, heq⟩⟩ := Seek.returns_own_ofExcept.mp hfound
    · cases heq
      exact gather_not_missing (h as hz) _ hmissing
    · cases heq
  · cases heq

end Sequences

end Gathering

end Includer

/-! ## Listing and opening -/

namespace Local

open FileTree (storable)

theorem listed_congr {t : FileTree} {cwd : List String} {pattern other : String} {args args' : Args}
    {limit : Option Nat} (hpath : plainPath pattern = plainPath other)
    (h : Glob.limitOfArgs pattern args = .ok limit) (h' : Glob.limitOfArgs other args' = .ok limit) :
    listed t cwd pattern args = listed t cwd other args' := by
  unfold listed
  rw [h, h', hpath]

theorem isAbsolute_below {pattern : String} {site rest : List String} (habsolute : Path.isAbsolute pattern = true)
    (hsplit : Glob.splitRoot pattern = (site, rest)) (relative : String) :
    Path.isAbsolute (below site relative) = true := by
  obtain ⟨text, rfl⟩ := Path.exists_eq_of_isAbsolute habsolute
  have hsegments : ∃ others, site = "" :: others := by
    have hfirst : Glob.segments ("/" ++ text) = "" :: Glob.segments text := by
      simp [Glob.segments, Text.splitOn]
    rw [Glob.splitRoot_eq, hfirst, List.takeWhile_cons_of_pos (by decide)] at hsplit
    exact ⟨_, (Prod.mk.inj hsplit).1.symm⟩
  obtain ⟨others, rfl⟩ := hsegments
  cases others with
  | nil => simp [below, Path.isAbsolute, Glob.joinSegments_singleton]
  | cons name others => simp [below, Path.isAbsolute, Glob.joinSegments_cons]

/-- What is found below an absolute root is there when it is opened, if no name on the way has a backslash in it. -/
theorem opened_below {t : FileTree} {cwd : List String} {site : List String} {relative : String}
    (hfound : FoundBelow t cwd (fun name => storable name ∧ plainName name) (rootDirectory site) relative)
    (habsolute : Path.isAbsolute (below site relative) = true) {f : Fault}
    (h : opened t cwd (below site relative) {} = .error f) : f.isNotFound = false := by
  obtain ⟨place, dir, names, bytes, hplace, hfile, rfl, hne, hnames⟩ := hfound
  have hstorable := fun name hname => (hnames name hname).1
  have hplain := plainPath_of_scheme? (Target.scheme?_of_isAbsolute habsolute)
  rw [opened, hplain, joinNames_eq fun name hname => (hnames name hname).2] at h
  -- only a path that is too long, or has too many links on it, fails to lead to the file
  rcases resolve_below_or hplace hfile (by simp) hne hstorable with hresolve | hresolve | hresolve <;>
    rw [hresolve] at h <;> cases h <;> rfl

end Local

/-! ## Includes -/

namespace Includer

theorem SameDepth.limit {byPath byUrl : Entries} (h : SameDepth byPath byUrl) : ∃ limit listing,
    Plan.ofParams [] byPath = .ok ⟨listing, .standard⟩ ∧
      (∀ pattern, Glob.limitOfArgs pattern listing.args = .ok limit) ∧
      (∀ pattern, Glob.limitOfArgs pattern ((⟨[], byUrl⟩ : Args).partition [depthKey]).1 = .ok limit) ∧
      ((⟨[], byUrl⟩ : Args).partition [depthKey]).2 = {} := by
  cases h with
  | unlimited => exact ⟨none, .standard, rfl, fun _ => rfl, fun _ => rfl, rfl⟩
  | limited n =>
    exact ⟨some n, .keyword [(.string depthKey, .ofNat n)], rfl, fun _ => rfl, fun _ => rfl, rfl⟩

section Resolving
variable {I : Includer (StateM σ)} {parse : String → Content → Run (StateM σ) Value} {d : Directive}
  {base : Option String} {s s₀ s' : σ} {v : Value}

theorem returns_resolveWith (hbase : (I.currentBase.run s).run = (base, s₀)) {target : Resolved}
    (htarget : Target.resolve d.target base = target) : (I.resolveWith parse d).Returns s v s' ↔
      (I.found parse d target.route target.path).run.Returns s₀ (.ok v) s' ∨
        ∃ q s₁ w, (I.found parse d target.route target.path).run.Returns s₀ (.error q) s₁ ∧ d.default = some w ∧
          (defaultValue parse target.path w).Returns s₁ v s' := by
  change (I.resolveWith parse d).Ends s (.ok v) s' ↔ _
  rw [resolveWith, ends_bind_iff (ends_currentBase hbase), htarget]
  constructor
  · intro h
    obtain ⟨q | w, s₁, hfound, h⟩ := returns_bind.mp h
    · cases hdefault : d.default with
      | none =>
        simp only [hdefault] at h
        exact absurd h not_returns_raise
      | some w =>
        simp only [hdefault] at h
        exact .inr ⟨q, s₁, w, hfound, rfl, h⟩
    · obtain ⟨rfl, rfl⟩ := returns_pure.mp h
      exact .inl hfound
  · rintro (hfound | ⟨q, s₁, w, hfound, hdefault, h⟩)
    · exact returns_bind.mpr ⟨.ok v, s', hfound, returns_pure.mpr ⟨rfl, rfl⟩⟩
    · refine returns_bind.mpr ⟨.error q, s₁, hfound, ?_⟩
      simp only [hdefault]
      exact h

end Resolving

section SamePattern
variable {I : Includer (StateM σ)} {t : FileTree} {cwd : List String} {web : Web (StateM σ)} {settings : Http.Settings}
  {parse : String → Content → Run (StateM σ) Value} {pattern : String} {byPath byUrl : Directive}
  {z : Except Fault (List String)}

/-- By path the files are opened one after the other, each after the one before it is read. -/
theorem found_byPath (hbackend : I.backend = Backend.standard (t.disk cwd) web settings)
    (hsame : SamePattern pattern byPath byUrl) (hscheme : Target.scheme? pattern = none) {listing : Listing}
    (hplan : Plan.ofParams [] byPath.named = .ok ⟨listing, .standard⟩)
    (hz : Local.listed t cwd pattern listing.args = z) :
    I.found parse byPath .localGlob pattern = (do
      let paths ← Seek.own (Run.ofExcept z)
      return .sequence (← gather byPath.flatten parse (fun p => Seek.own (I.backend.openOne p {})) paths)) := by
  have hglob : I.backend.glob pattern listing.args = Run.ofExcept z := by
    rw [hbackend, Backend.standard, Backend.byScheme_glob (.inl hscheme), ← hz]
    exact Local.glob_eq_listed pattern listing.args
  unfold found
  rw [hsame.pathPositional, hplan]
  simp only [Run.ofExcept, liftM_pure, pure_bind, hglob]
  rfl

/-- By URL they are all open before the first of them is read. -/
theorem found_byUrl (hbackend : I.backend = Backend.standard (t.disk cwd) web settings)
    (hsame : SamePattern pattern byPath byUrl) {args : Args} (hargs : byUrl.args.partition [depthKey] = (args, {}))
    (hz : Local.listed t cwd ("file://" ++ pattern) args = z) :
    I.found parse byUrl .remoteGlob ("file://" ++ pattern) = (do
      let files ← Seek.own (Run.ofExcept (z.bind fun paths => paths.mapM fun p => Local.opened t cwd p {}))
      return .sequence (← gather byPath.flatten parse pure files)) := by
  have hopen : I.backend.openMatching ("file://" ++ pattern) byUrl.args =
      Run.ofExcept (z.bind fun paths => paths.mapM fun p => Local.opened t cwd p {}) := by
    rw [hbackend, Backend.standard, Backend.byScheme_openMatching (.inr (Target.scheme?_fileUrl pattern))]
    change Backend.openListed (Local.glob (t.disk cwd)) (Local.openOne (t.disk cwd)) _ _ = _
    rw [Backend.openListed, hargs, Run.ofExcept_bind]
    dsimp only
    rw [Local.glob_eq_listed, hz]
    refine bind_congr fun paths => ?_
    simp only [Local.openOne_eq, mapM_ofExcept]
  unfold found
  rw [hopen, hsame.flatten]

theorem exists_listing (t : FileTree) (cwd : List String) {named named' : Entries} (hdepth : SameDepth named named')
    (habsolute : Path.isAbsolute pattern = true) :
    ∃ (listing : Listing) (args : Args),
      Plan.ofParams [] named = .ok ⟨listing, .standard⟩ ∧ (⟨[], named'⟩ : Args).partition [depthKey] = (args, {}) ∧
      Local.listed t cwd ("file://" ++ pattern) args = Local.listed t cwd pattern listing.args := by
  obtain ⟨limit, listing, hplan, hlimit, hlimit', hopening⟩ := hdepth.limit
  have hplain := Local.plainPath_of_scheme? (Target.scheme?_of_isAbsolute habsolute)
  exact ⟨listing, _, hplan, Prod.ext rfl hopening,
    Local.listed_congr (by rw [Local.plainPath_fileUrl, hplain]) (hlimit' _) (hlimit _)⟩

/-- What an absolute pattern lists is left to the disk, and with plain names it is there. -/
theorem there_of_mem_listed {args : Args} {paths : List String} (habsolute : Path.isAbsolute pattern = true)
    (hwild : Path.hasWildcard pattern = true) (h : Local.listed t cwd pattern args = .ok paths) :
    ∀ path ∈ paths, Path.isAbsolute path = true ∧
      ((t.Tidy fun name => FileTree.storable name ∧ Local.plainName name) →
        ∀ f, Local.opened t cwd path {} = .error f → f.isNotFound = false) := by
  intro path hpath
  have hplain := Local.plainPath_of_scheme? (Target.scheme?_of_isAbsolute habsolute)
  obtain ⟨⟨site, rest⟩, hsplit⟩ : ∃ parts, Glob.splitRoot pattern = parts := ⟨_, rfl⟩
  have hrest : rest ≠ [] := by
    have := Glob.splitRoot_snd_ne_nil hwild
    rwa [hsplit] at this
  obtain ⟨relative, rfl, hbelow⟩ := Local.mem_listed (hplain.symm ▸ hsplit) hrest h hpath
  have hbelowAbsolute := Local.isAbsolute_below habsolute hsplit relative
  exact ⟨hbelowAbsolute, fun htidy f hf => Local.opened_below (hbelow htidy) hbelowAbsolute hf⟩

/-- What is found by URL is what is found by path, and with plain names neither is missing. -/
theorem found_fileUrl (parse : String → Content → Run (StateM σ) Value)
    (hbackend : I.backend = Backend.standard (t.disk cwd) web settings)
    (hsame : SamePattern pattern byPath byUrl) (habsolute : Path.isAbsolute pattern = true)
    (hwild : Path.hasWildcard pattern = true) :
    (∀ s s' v, (I.found parse byUrl .remoteGlob ("file://" ++ pattern)).run.Returns s (.ok v) s' ↔
      (I.found parse byPath .localGlob pattern).run.Returns s (.ok v) s') ∧
    ((t.Tidy fun name => FileTree.storable name ∧ Local.plainName name) → ∀ s s' q,
      ¬ (I.found parse byUrl .remoteGlob ("file://" ++ pattern)).run.Returns s (.error q) s' ∧
        ¬ (I.found parse byPath .localGlob pattern).run.Returns s (.error q) s') := by
  obtain ⟨listing, args, hplan, hargs, hlistings⟩ := exists_listing t cwd hsame.depth habsolute
  obtain ⟨z, hz⟩ : ∃ z, Local.listed t cwd pattern listing.args = z := ⟨_, rfl⟩
  have hlisted := fun paths hpaths => there_of_mem_listed habsolute hwild (hz.trans (show z = .ok paths from hpaths))
  have hother := fun f hf => Local.isNotFound_of_listed (hz.trans (show z = .error f from hf))
  have hurlArgs : byUrl.args = ⟨[], byUrl.named⟩ := by rw [Directive.args, hsame.urlPositional]
  rw [found_byPath hbackend hsame (Target.scheme?_of_isAbsolute habsolute) hplan hz,
    found_byUrl hbackend hsame (by rw [hurlArgs, hargs]) (hlistings.trans hz)]
  have hopen : ∀ paths, z = .ok paths → ∀ path ∈ paths,
      (Seek.own (I.backend.openOne path {}) : Seek (StateM σ) Opened) =
        Seek.own (Run.ofExcept (Local.opened t cwd path {})) := by
    intro paths hpaths path hpath
    have hscheme := Target.scheme?_of_isAbsolute (hlisted paths hpaths path hpath).1
    rw [hbackend, Backend.standard, Backend.byScheme_openOne (.inl hscheme)]
    exact congrArg Seek.own (Local.openOne_eq path {})
  refine ⟨fun s s' v => ?_, fun htidy s s' q => ⟨?_, ?_⟩⟩
  · rw [returns_sequence, returns_sequence]
    cases z with
    | error f =>
      constructor
      · rintro ⟨_, _, hfiles, -⟩
        cases hfiles
      · rintro ⟨_, _, hpaths, -⟩
        cases hpaths
    | ok paths =>
      have hgather := fun vs => gather_opened parse byPath.flatten s s' vs (hopen paths rfl)
      constructor
      · rintro ⟨files, vs, hfiles, h, rfl⟩
        exact ⟨paths, vs, rfl, (hgather vs).mpr ⟨files, hfiles, h⟩, rfl⟩
      · rintro ⟨_, vs, hpaths, h, rfl⟩
        cases hpaths
        obtain ⟨files, hfiles, h⟩ := (hgather vs).mp h
        exact ⟨files, vs, hfiles, h, rfl⟩
  · refine sequence_not_missing ?_ (fun _ _ file _ s q s' h => ?_) q
    · cases z with
      | error f =>
        intro g hg
        cases hg
        exact hother f rfl
      | ok paths => exact forall_error_mapM fun path hpath f hf => (hlisted paths rfl path hpath).2 htidy f hf
    · cases (Seek.returns_pure.mp h).1
  · refine sequence_not_missing hother (fun paths hpaths path hpath s q s' h => ?_) q
    rw [hopen paths hpaths path hpath] at h
    obtain ⟨-, ⟨_, -, heq⟩ | ⟨_, hmissing, -⟩⟩ := Seek.returns_own_ofExcept.mp h
    · cases heq
    · cases (hlisted paths hpaths path hpath).2 htidy _ hmissing

/-- **A pattern by its URL gives what it gives by its path.** With a default this takes a tree in which no name has a
backslash in it: such a name is listed as two, and only by URL all that is listed is opened before a file that cannot
be read is met with. -/
theorem resolve_fileUrl (hbackend : I.backend = Backend.standard (t.disk cwd) web settings)
    (hsame : SamePattern pattern byPath byUrl) (habsolute : Path.isAbsolute pattern = true)
    (hwild : Path.hasWildcard pattern = true) (hback : '\\' ∉ pattern.toList)
    (hthere : byPath.default = none ∨ t.Tidy fun name => FileTree.storable name ∧ Local.plainName name)
    (s s' : σ) (v : Value) : (I.resolve byUrl).Returns s v s' ↔ (I.resolve byPath).Returns s v s' := by
  unfold resolve
  cases I.nesting with
  | zero => exact iff_of_false not_returns_throw not_returns_throw
  | succ left =>
    rcases hbase : (I.currentBase.run s).run with ⟨base, s₀⟩
    have hpathTarget : Target.resolve byPath.target base = ⟨none, pattern⟩ := by
      rw [hsame.path, Target.resolve_of_isAbsolute habsolute hback]
    have hurlTarget : Target.resolve byUrl.target base = ⟨some "file", "file://" ++ pattern⟩ := by
      rw [hsame.url, Target.resolve_fileUrl_of_isAbsolute habsolute hback]
    have hpathRoute : (⟨none, pattern⟩ : Resolved).route = .localGlob := by
      rw [Resolved.route, hwild]
      rfl
    have hurlRoute : (⟨some "file", "file://" ++ pattern⟩ : Resolved).route = .remoteGlob := by
      rw [Resolved.route, Path.hasWildcard_append, hwild, Bool.or_true]
      rfl
    obtain ⟨halike, hfound⟩ := found_fileUrl (I.parseContentWith (I.resolveAt left)) hbackend hsame habsolute hwild
    rw [resolveAt, resolveAt, returns_resolveWith hbase hpathTarget, returns_resolveWith hbase hurlTarget, hpathRoute,
      hurlRoute, hsame.default]
    rcases hthere with hnone | htidy
    · simp [hnone, halike]
    · have hurlFound := fun q s₁ => (hfound htidy s₀ s₁ q).1
      have hpathFound := fun q s₁ => (hfound htidy s₀ s₁ q).2
      simp [hurlFound, hpathFound, halike]

end SamePattern

def fromDisk (t : FileTree) : Includer (StateM Unit) where
  backend := Backend.standard (t.disk []) .unreachable {}

def documentsByPath (flatten : Bool) : Directive where
  target := "/d/**/*.yaml"
  flatten := flatten
  default := some (.ofNat 1)
  target_shows := by decide

def documentsByUrl (flatten : Bool) : Directive where
  target := "file://" ++ "/d/**/*.yaml"
  flatten := flatten
  default := some (.ofNat 1)
  target_shows := by decide

theorem samePattern_documents (flatten : Bool) :
    SamePattern "/d/**/*.yaml" (documentsByPath flatten) (documentsByUrl flatten) :=
  ⟨rfl, rfl, rfl, rfl, .unlimited, rfl, rfl⟩

theorem target_documents : Target.resolve "/d/**/*.yaml" none = ⟨none, "/d/**/*.yaml"⟩ :=
  Target.resolve_of_isAbsolute (by decide) (by decide) none

theorem resolve_fileUrl_empty :
    SamePattern "/d/**/*.yaml" (documentsByPath false) (documentsByUrl false) ∧
    ((Backend.alone .empty ["d", "a.yaml"]).Tidy fun name => FileTree.storable name ∧ Local.plainName name) ∧
      ((fromDisk (Backend.alone .empty ["d", "a.yaml"])).resolve (documentsByUrl false)).Returns ()
        (.sequence [.null]) () := by
  have htidy : (Backend.alone .empty ["d", "a.yaml"]).Tidy fun name => FileTree.storable name ∧ Local.plainName name :=
    Backend.alone_tidy .empty (by decide)
  have hlisted : Local.listed (Backend.alone .empty ["d", "a.yaml"]) [] "/d/**/*.yaml" {} = .ok ["/d/a.yaml"] :=
    toOption_eq_some_iff.mp (by decide +kernel)
  have hsame := samePattern_documents false
  have hpath : ((fromDisk (Backend.alone .empty ["d", "a.yaml"])).resolve (documentsByPath false)).Returns ()
      (.sequence [.null]) () := by
    refine (returns_resolveWith rfl target_documents).mpr (.inl ?_)
    have hroute : (⟨none, "/d/**/*.yaml"⟩ : Resolved).route = .localGlob := by decide
    rw [hroute, found_byPath rfl hsame (by decide) rfl hlisted, returns_sequence]
    exact ⟨_, [.null], rfl, rfl, rfl⟩
  exact ⟨hsame, htidy, (resolve_fileUrl rfl hsame (by decide) (by decide) (by decide) (.inr htidy) () () _).mpr hpath⟩

/-- A document that is there when it is opened, and one that is looked for in a directory that is not. -/
def halfThere : FileTree := .dir [("d", .dir [("a.yaml", .file .empty), ("x\\y.yaml", .file .empty)])]

/-- By URL the second document is missing before the first, which is no sequence, is read. -/
theorem resolve_fileUrl_halfThere :
    SamePattern "/d/**/*.yaml" (documentsByPath true) (documentsByUrl true) ∧
    ((fromDisk halfThere).resolve (documentsByUrl true)).Returns () (.ofNat 1) () ∧
      ∀ v s', ¬ ((fromDisk halfThere).resolve (documentsByPath true)).Returns () v s' := by
  have hsame := samePattern_documents true
  have hfound : ((Glob.limitOfArgs "/d/**/*.yaml" {}).bind fun maxdepth => (Glob.matcher "**/*.yaml").bind fun p =>
      Local.matched halfThere [] p "/d" (Glob.depthLimit ["**", "*.yaml"] maxdepth)).toOption =
        some ["a.yaml", "x/y.yaml"] := by
    decide +kernel
  have hlisted : Local.listed halfThere [] "/d/**/*.yaml" {} = .ok ["/d/a.yaml", "/d/x/y.yaml"] := by
    rw [Local.listed_eq_ok rfl rfl (toOption_eq_some_iff.mp hfound), List.mergeSort_of_pairwise (by decide)]
    rfl
  have hlistedUrl : Local.listed halfThere [] ("file://" ++ "/d/**/*.yaml") {} = .ok ["/d/a.yaml", "/d/x/y.yaml"] :=
    (Local.listed_congr (by decide) rfl rfl).trans hlisted
  refine ⟨hsame, ?_, ?_⟩
  · have htarget : Target.resolve ("file://" ++ "/d/**/*.yaml") none = ⟨some "file", "file://" ++ "/d/**/*.yaml"⟩ :=
      Target.resolve_fileUrl_of_isAbsolute (by decide) (by decide) none
    refine (returns_resolveWith rfl htarget).mpr (.inr ⟨⟨"/d/x/y.yaml"⟩, (), .ofNat 1, ?_, rfl, ?_⟩)
    · have hroute : (⟨some "file", "file://" ++ "/d/**/*.yaml"⟩ : Resolved).route = .remoteGlob := by decide
      have hmissing : (["/d/a.yaml", "/d/x/y.yaml"].mapM fun p => Local.opened halfThere [] p {}) =
        .error (.notFound "/d/x/y.yaml") := rfl
      rw [hroute, found_byUrl rfl hsame rfl hlistedUrl]
      exact Seek.returns_bind.mpr (.inl ⟨_, Seek.returns_own_ofExcept.mpr ⟨rfl, .inr ⟨_, hmissing, rfl⟩⟩, rfl⟩)
    · exact returns_pure.mpr ⟨rfl, rfl⟩
  · intro v s' h
    have hroute : (⟨none, "/d/**/*.yaml"⟩ : Resolved).route = .localGlob := by decide
    have hfound := (returns_resolveWith rfl target_documents).mp h
    rw [hroute, found_byPath rfl hsame (by decide) rfl hlisted] at hfound
    have hopen : ((fromDisk halfThere).backend.openOne "/d/a.yaml" {}).Returns () ⟨"/d/a.yaml", .ofBytes .empty⟩ () :=
      rfl
    have hread : (do pieces true "/d/a.yaml" (← (fromDisk halfThere).parseContentWith
        ((fromDisk halfThere).resolveAt 1999) "/d/a.yaml" (.ofBytes .empty)) : Run (StateM Unit) (List Value)).Ends ()
        (.error (.fault (.flattenNotSequence "/d/a.yaml" "null"))) () := rfl
    have hstops : (gather true ((fromDisk halfThere).parseContentWith ((fromDisk halfThere).resolveAt 1999))
        (fun p => Seek.own ((fromDisk halfThere).backend.openOne p {})) ["/d/a.yaml", "/d/x/y.yaml"]).run.Ends ()
        (.error (.fault (.flattenNotSequence "/d/a.yaml" "null"))) () := gather_stops hopen hread
    have hends := ends_sequence hstops
    rcases hfound with hfound | ⟨q, s₁, w, hfound, -⟩
    · cases (hends.unique hfound).1
    · cases (hends.unique hfound).1

end Includer
end Transclusion
