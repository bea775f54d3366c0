import Transclusion.Proofs.Listings.Opening
import Transclusion.Proofs.Targets.Routes

/-!
# Spellings of a scheme

A backend is chosen by the scheme of a path, in which the case of letters does not count. The disk takes `file://` off
a path as it is written. With another spelling of `file` a path begins in the working directory, by a name that ends in
a colon, and where there is no such name it leads nowhere.

* `Run.Alike` : runs that end in the same value, or in failures of one kind;
* `FileTree.resolve_of_not_child` : a path whose first name is not there;
* `Local.opened_spelled`, `Local.listed_spelled` : what other spellings of `file` open and list;
* `Backend.alike_spelled_iff` : when another spelling makes no difference.
-/

namespace Transclusion

open Text

/-! ## Runs that end alike -/

def Opened.Same (file file' : Opened) : Prop := file.content = file'.content

theorem Opened.Same.refl (file : Opened) : file.Same file := rfl

namespace Run

variable {α β γ : Type} {same : α → β → Prop} {same' : α → α → Prop} {r : Run Id α} {x x' : Except Fault γ}
  {y : Except Fault α} {z : Except Fault β} {k : γ → Except Fault α} {k' : γ → Except Fault β}

/-- Both runs end in a value, the two being the same in what counts, or both end in a failure of one kind. -/
def Alike (same : α → β → Prop) (r : Run Id α) (r' : Run Id β) : Prop :=
  (∃ a b, r = pure a ∧ r' = pure b ∧ same a b) ∨ ∃ f g, r = raise f ∧ r' = raise g ∧ f.kind = g.kind

/-- The run is refused for the options that it is given. -/
def Refused (r : Run Id α) : Prop := ∃ f, r = raise f ∧ f.kind = .config

theorem raise_inj {f g : Fault} : (raise f : Run Id α) = raise g ↔ f = g := by
  constructor
  · intro h
    cases h
    rfl
  · rintro rfl
    rfl

theorem ofExcept_eq_raise_iff {f : Fault} : (ofExcept y : Run Id α) = raise f ↔ y = .error f := by
  cases y with
  | ok a =>
    constructor
    · intro h
      exact absurd h pure_ne_throw
    · intro h
      cases h
  | error g => simp [ofExcept, raise_inj]

theorem alike_self (hsame : ∀ a, same' a a) (y : Except Fault α) : Alike same' (ofExcept y) (ofExcept y) := by
  cases y with
  | ok a => exact .inl ⟨a, a, rfl, rfl, hsame a⟩
  | error f => exact .inr ⟨f, f, rfl, rfl, rfl⟩

theorem alike_ofExcept : Alike same (ofExcept y) (ofExcept z) ↔
    (∃ a b, y = .ok a ∧ z = .ok b ∧ same a b) ∨ ∃ f g, y = .error f ∧ z = .error g ∧ f.kind = g.kind := by
  simp only [Alike, ofExcept_eq_pure_iff, ofExcept_eq_raise_iff]

theorem alike_pure_iff {a : α} {b : β} : Alike same (pure a) (pure b) ↔ same a b := by
  simp [Alike, pure_inj, raise, pure_ne_throw]

theorem refused_ofExcept : Refused (ofExcept y) ↔ ∃ f, y = .error f ∧ f.kind = .config := by
  simp only [Refused, ofExcept_eq_raise_iff]

theorem alike_bind_iff (h : Checked x x')
    (hk : ∀ c, Alike same (ofExcept (k c)) (ofExcept (k' c)) ↔
      Refused (ofExcept (k' c)) ∨ Alike same r (ofExcept (k' c))) :
    Alike same (ofExcept (x.bind k)) (ofExcept (x'.bind k')) ↔
      Refused (ofExcept (x'.bind k')) ∨ Alike same r (ofExcept (x'.bind k')) := by
  cases h with
  | passed c => exact hk c
  | refused hf hg =>
    exact iff_of_true (.inr ⟨_, _, rfl, rfl, hf.trans hg.symm⟩) (.inl ⟨_, rfl, hg⟩)

/-- Where nothing is refused any more, a run is compared as it is. -/
theorem alike_iff_of_not_refused (h : ∀ f, z = .error f → f.kind ≠ .config) :
    Alike same r (ofExcept z) ↔ Refused (ofExcept z) ∨ Alike same r (ofExcept z) := by
  refine (or_iff_right ?_).symm
  rw [refused_ofExcept]
  rintro ⟨f, hf, hkind⟩
  exact h f hf hkind

end Run

/-! ## Options of an opening -/

theorem Compression.kind_of_ofValue {v : Value} {f : Fault} (h : ofValue v = .error f) : f.kind = .config := by
  unfold ofValue at h
  dsimp only at h
  repeat' split at h
  all_goals cases h
  all_goals rfl

/-- The options of an opening are checked alike for all paths. -/
theorem OpenOptions.checked (path other : String) (args : Args) (extra : List String) :
    Checked (check path args extra) (check other args extra) := by
  unfold check
  refine .guard rfl rfl (.guard rfl rfl (.refl fun f h => ?_))
  -- only the first two checks name the path
  dsimp only at h
  repeat' split at h
  all_goals first
    | exact Compression.kind_of_ofValue h
    | cases h
  all_goals rfl

/-! ## Letters of either case -/

theorem isAlpha_of_toLower {c : Char} (h : c.toLower.isAlpha = true) : c.isAlpha = true := by
  unfold Char.toLower at h
  split at h
  · rename_i hc
    exact Bool.or_eq_true_iff.mpr (.inl (decide_eq_true hc))
  · exact h

theorem exists_letters {scheme : String} (h : toLowerAscii scheme = "file") :
    ∃ a b c d, scheme.toList = [a, b, c, d] ∧ ∀ l ∈ [a, b, c, d], l.isAlpha = true := by
  have hmap : scheme.toList.map Char.toLower = "file".toList := by
    rw [← h, toLowerAscii, String.toList_map]
  obtain ⟨a, b, c, d, hletters⟩ : ∃ a b c d, scheme.toList = [a, b, c, d] :=
    List.length_eq_four.mp (by simpa using congrArg List.length hmap)
  refine ⟨a, b, c, d, hletters, fun l hl => isAlpha_of_toLower ?_⟩
  have hlower : l.toLower ∈ "file".toList := by
    rw [← hmap, hletters]
    exact List.mem_map_of_mem hl
  have hall : "file".toList.all Char.isAlpha = true := by decide
  exact List.all_eq_true.mp hall _ hlower

theorem isScheme_of_toLowerAscii {scheme : String} (h : toLowerAscii scheme = "file") :
    isScheme scheme.toList = true := by
  obtain ⟨a, b, c, d, hletters, halpha⟩ := exists_letters h
  rw [hletters]
  simp [isScheme, Char.isAlphanum, halpha]

/-! ## Paths that lead nowhere -/

namespace FileTree

/-- How a path fails whose first name is not there. -/
def absence (path : String) : IoFault :=
  if Char.ofNat 0 ∈ path.toList then .nulInName
  else if maxPathLength ≤ path.utf8ByteSize then .nameTooLong
  else .notFound

/-- A path leads nowhere if its first name is not in the working directory. -/
theorem resolve_of_not_child {t : FileTree} {cwd names : List String} {entries : List (String × FileTree)}
    {path name : String} (hcwd : t.descend? cwd = some (.dir entries)) (hpieces : pieces path = name :: names)
    (hname : storable name) (hmissing : child? name (.dir entries) = none) :
    t.resolve cwd .follow path = .error (absence path) := by
  have hempty : name ≠ "" := by
    rintro rfl
    exact hname.1 (by decide)
  have hne : path ≠ "" := by
    rintro rfl
    rw [show pieces "" = [""] by decide] at hpieces
    exact hempty (List.cons.inj hpieces).1.symm
  have hhead : (path.toList.head? == some '/') = false := by
    rw [beq_eq_false_iff_ne]
    intro hslash
    obtain ⟨rest, hrest⟩ := List.head?_eq_some_iff.mp hslash
    rw [pieces, hrest, splitOn, if_pos rfl, List.map_cons] at hpieces
    exact hempty (List.cons.inj hpieces).1.symm
  unfold absence
  split
  · rename_i hnul
    rw [resolve, if_pos (by simpa using hnul)]
  rename_i hnul
  split
  · rename_i hlong
    exact resolve_of_long hnul hne hlong
  rename_i hlong
  obtain ⟨fuel, hfuel⟩ : ∃ fuel, (maxLinks + 1) * (maxPathLength + 1) = fuel + 1 :=
    Nat.exists_eq_succ_of_ne_zero (by decide)
  rw [resolve_of_walk hnul hne (Nat.not_le.mp hlong), hhead, if_neg (by simp), hpieces, hfuel]
  exact walk_missing (by rwa [List.reverse_reverse]) hname hmissing

end FileTree

namespace Local

open FileTree (storable pieces absence)
open Glob (joinSegments)

/-- Another spelling of `file`, which with its colon is no name in the working directory. -/
structure OtherSpelling (t : FileTree) (cwd : List String) (scheme : String) : Prop where
  lower : toLowerAscii scheme = "file"
  other : scheme ≠ "file"
  missing : ∃ entries, t.descend? cwd = some (.dir entries) ∧ FileTree.child? (scheme ++ ":") (.dir entries) = none

section
variable {t : FileTree} {cwd : List String} {scheme a : String}

/-- Only as it is written `file://` is taken off a path. -/
theorem plainPath_of_ne (hscheme : isScheme scheme.toList = true) (hne : scheme ≠ "file") (rest : String) :
    plainPath (scheme ++ "://" ++ rest) = scheme ++ "://" ++ rest := by
  unfold plainPath
  split
  · rename_i after hafter
    have htext := dropHead?_eq_some.mp hafter
    have hleft : (scheme ++ "://" ++ rest).toList = scheme.toList ++ ':' :: ("//" ++ rest).toList := by simp
    have hright : "file://".toList ++ after = "file".toList ++ ':' :: ('/' :: '/' :: after) := by simp
    have hcut := congrArg (cutAt ':') (hleft.symm.trans (htext.trans hright))
    rw [cutAt_append_cons (not_mem_of_isScheme hscheme (by decide)), cutAt_append_cons (by decide)] at hcut
    have hfile : scheme.toList = "file".toList := (Prod.mk.inj (Option.some.inj hcut)).1
    exact absurd (String.toList_inj.mp hfile) hne
  · rfl

theorem pieces_url (hscheme : isScheme scheme.toList = true) (rest : String) :
    pieces (scheme ++ "://" ++ rest) = (scheme ++ ":") :: "" :: pieces rest := by
  have htext : scheme ++ "://" ++ rest = (scheme ++ ":") ++ "/" ++ ("" ++ "/" ++ rest) := by
    apply String.ext
    simp
  have hslash : '/' ∉ (scheme ++ ":").toList := by
    simpa using not_mem_of_isScheme (c := '/') hscheme (by decide)
  have hfirst : pieces (scheme ++ ":") = [scheme ++ ":"] := by
    have := Glob.segments_joinSegments (l := [scheme ++ ":"]) (by simp) (by simpa using hslash)
    rwa [Glob.joinSegments_singleton] at this
  rw [htext, pieces_append, pieces_append, hfirst, show pieces "" = [""] by decide]
  rfl

theorem storable_spelling (h : toLowerAscii scheme = "file") : storable (scheme ++ ":") := by
  have hscheme := isScheme_of_toLowerAscii h
  refine ⟨fun hspecial => ?_, ?_, ?_, ?_⟩
  · have hfree : ∀ name ∈ ["", ".", ".."], ':' ∉ name.toList := by decide
    exact hfree _ hspecial (by simp)
  · simpa using not_mem_of_isScheme (c := '/') hscheme (by decide)
  · have hnul := not_mem_of_isScheme (c := Char.ofNat 0) hscheme (by decide)
    simpa using hnul
  · obtain ⟨a, b, c, d, hletters, -⟩ := exists_letters h
    have hsize : scheme.utf8ByteSize = a.utf8Size + b.utf8Size + c.utf8Size + d.utf8Size := by
      rw [← String.ofList_toList (s := scheme), hletters]
      simp [Nat.add_assoc]
    have hcolon : ":".utf8ByteSize = 1 := by decide
    have ha := a.utf8Size_le_four
    have hb := b.utf8Size_le_four
    have hc := c.utf8Size_le_four
    have hd := d.utf8Size_le_four
    rw [String.utf8ByteSize_append, hsize, hcolon, FileTree.maxNameLength]
    omega

theorem splitRoot_url (hscheme : isScheme scheme.toList = true) (rest : String) :
    Glob.splitRoot (scheme ++ "://" ++ rest) =
      ((scheme ++ ":") :: "" :: (Glob.splitRoot rest).1, (Glob.splitRoot rest).2) := by
  have hsegments : Glob.segments (scheme ++ "://" ++ rest) = (scheme ++ ":") :: "" :: Glob.segments rest :=
    pieces_url hscheme rest
  have hwild : Path.hasWildcard (scheme ++ ":") = false := by
    rw [Path.hasWildcard_append, hasWildcard_of_isScheme hscheme]
    decide
  rw [Glob.splitRoot_eq, Glob.splitRoot_eq, hsegments]
  simp [hwild, show Path.hasWildcard "" = false by decide]

def notThere (path : String) : Fault := .ofIo "opening" path (absence path)

def nowhere (pattern : String) : Except Fault (List String) :=
  let (root, rest) := Glob.splitRoot pattern
  let base := joinSegments root
  if rest.isEmpty ∨ (absence base).kind = .notFound then .ok [] else .error (.io "listing" base (absence base))

theorem OtherSpelling.resolve (h : OtherSpelling t cwd scheme) {path : String} {names : List String}
    (hpieces : pieces path = (scheme ++ ":") :: names) : t.resolve cwd .follow path = .error (absence path) := by
  obtain ⟨entries, hcwd, hmissing⟩ := h.missing
  exact FileTree.resolve_of_not_child hcwd hpieces (storable_spelling h.lower) hmissing

/-- Another spelling of `file` opens nothing. -/
theorem opened_spelled (h : OtherSpelling t cwd scheme) (a : String) (args : Args) :
    opened t cwd (scheme ++ "://" ++ a) args =
      (OpenOptions.check (scheme ++ "://" ++ a) args []).bind fun _ => .error (notThere (scheme ++ "://" ++ a)) := by
  have hspelling := isScheme_of_toLowerAscii h.lower
  rw [opened, plainPath_of_ne hspelling h.other, h.resolve (pieces_url hspelling a)]
  rfl

/-- The root of a URL begins with its scheme. -/
theorem rootDirectory_url (root : List String) : rootDirectory ((scheme ++ ":") :: "" :: root) =
    joinSegments ((scheme ++ ":") :: "" :: root) := by
  have hne : joinSegments ((scheme ++ ":") :: "" :: root) ≠ "" := by
    rw [Glob.joinSegments_cons _ (by simp)]
    simp
  simp [rootDirectory, hne]

/-- Another spelling of `file` lists nothing. -/
theorem listed_spelled (h : OtherSpelling t cwd scheme) {root rest : List String}
    (hsplit : Glob.splitRoot a = (root, rest)) (args : Args) :
    listed t cwd (scheme ++ "://" ++ a) args =
      (Glob.limitOfArgs (scheme ++ "://" ++ a) args).bind fun _ =>
        if rest.isEmpty then nowhere (scheme ++ "://" ++ a)
        else (Glob.matcher (joinSegments rest)).bind fun _ => nowhere (scheme ++ "://" ++ a) := by
  have hspelling := isScheme_of_toLowerAscii h.lower
  have hurl := splitRoot_url hspelling a
  rw [hsplit] at hurl
  have hwhole := h.resolve (pieces_url hspelling a)
  have hbase : t.resolve cwd .follow (joinSegments ((scheme ++ ":") :: "" :: root)) =
      .error (absence (joinSegments ((scheme ++ ":") :: "" :: root))) := by
    have hfree : ∀ name ∈ (scheme ++ ":") :: "" :: root, '/' ∉ name.toList := by
      intro name hmem
      have hfirst : (Glob.splitRoot (scheme ++ "://" ++ a)).1 = (scheme ++ ":") :: "" :: root := by rw [hurl]
      rw [← hfirst, Glob.splitRoot_eq] at hmem
      exact Glob.not_mem_of_mem_segments ((List.takeWhile_prefix _).subset hmem)
    exact h.resolve (Glob.segments_joinSegments (by simp) hfree)
  have hfound : ∀ limit, t.filesBelow cwd (joinSegments ((scheme ++ ":") :: "" :: root)) limit =
      .error (absence (joinSegments ((scheme ++ ":") :: "" :: root))) := by
    intro limit
    rw [FileTree.filesBelow, hbase]
    rfl
  rw [listed, plainPath_of_ne hspelling h.other]
  refine congrArg _ (funext fun maxdepth => ?_)
  simp only [hurl, nowhere, hwhole, rootDirectory_url, matched, hfound]
  cases rest with
  | nil => simp
  | cons segment rest =>
    simp only [List.isEmpty_cons, Bool.false_eq_true, if_false, false_or]
    refine congrArg _ (funext fun p => ?_)
    split
    · simp [Except.bind]
    · rfl

/-! ### Comparisons -/

open Run (Alike Refused)

theorem alike_opened_iff {same : Opened → Opened → Prop} (h : OtherSpelling t cwd scheme) (a other : String)
    (args : Args) :
    Alike same (Run.ofExcept (opened t cwd (scheme ++ "://" ++ a) args)) (Run.ofExcept (opened t cwd other args)) ↔
      Refused (Run.ofExcept (opened t cwd other args)) ∨
        Alike same (Run.raise (notThere (scheme ++ "://" ++ a))) (Run.ofExcept (opened t cwd other args)) := by
  rw [opened_spelled h]
  refine Run.alike_bind_iff (OpenOptions.checked _ other args []) fun compression =>
    Run.alike_iff_of_not_refused fun f hf => ?_
  split at hf
  · cases hf
  · cases hf
  · cases hf
    unfold Fault.ofIo
    split <;> nofun

theorem alike_listed_iff {same : List String → List String → Prop} (h : OtherSpelling t cwd scheme) {other : String}
    (hother : plainPath other = a) (args : Args) :
    Alike same (Run.ofExcept (listed t cwd (scheme ++ "://" ++ a) args)) (Run.ofExcept (listed t cwd other args)) ↔
      Refused (Run.ofExcept (listed t cwd other args)) ∨
        Alike same (Run.ofExcept (nowhere (scheme ++ "://" ++ a))) (Run.ofExcept (listed t cwd other args)) := by
  obtain ⟨⟨root, rest⟩, hsplit⟩ : ∃ parts, Glob.splitRoot a = parts := ⟨_, rfl⟩
  rw [listed_spelled h hsplit, listed, hother]
  simp only [hsplit]
  refine Run.alike_bind_iff (Glob.checked_limitOfArgs _ other args) fun maxdepth => ?_
  split
  · exact Run.alike_iff_of_not_refused fun f hf => by cases hf
  · refine Run.alike_bind_iff (.refl fun _ => kind_of_matcher) fun p =>
      Run.alike_iff_of_not_refused (forall_error_bind (fun f hf => ?_) fun _ _ h => by cases h)
    obtain ⟨cause, rfl⟩ := exists_io_of_matched hf
    intro hkind
    cases hkind

end

end Local

namespace Backend

/-- **Another spelling of `file` makes no difference only where there is nothing.** What is opened and listed by it is
what is opened and listed by `file://` if the options are refused, or if that fails like a path whose first name is
not there. -/
theorem alike_spelled_iff {B : Backend Id} {t : FileTree} {cwd : List String} {web : Web Id} {settings : Http.Settings}
    {scheme : String} (hbackend : B = standard (t.disk cwd) web settings) (hscheme : toLowerAscii scheme = "file")
    (hmissing : scheme = "file" ∨
      ∃ entries, t.descend? cwd = some (.dir entries) ∧ FileTree.child? (scheme ++ ":") (.dir entries) = none)
    (a : String) (args : Args) :
    (Run.Alike Opened.Same (B.openOne (scheme ++ "://" ++ a) args) (B.openOne ("file://" ++ a) args) ↔
      scheme = "file" ∨ Run.Refused (B.openOne ("file://" ++ a) args) ∨
        Run.Alike Opened.Same (Run.raise (Local.notThere (scheme ++ "://" ++ a))) (B.openOne ("file://" ++ a) args)) ∧
    (Run.Alike Eq (B.glob (scheme ++ "://" ++ a) args) (B.glob ("file://" ++ a) args) ↔
      scheme = "file" ∨ Run.Refused (B.glob ("file://" ++ a) args) ∨
        Run.Alike Eq (Run.ofExcept (Local.nowhere (scheme ++ "://" ++ a))) (B.glob ("file://" ++ a) args)) := by
  have hurl : Target.scheme? (scheme ++ "://" ++ a) = some "file" := by
    rw [← hscheme, ← Target.scheme?_of_isScheme (isScheme_of_toLowerAscii hscheme) ("//" ++ a)]
    simp only [String.append_assoc]
    rfl
  have hopen : ∀ path, Target.scheme? path = some "file" →
      B.openOne path args = Run.ofExcept (Local.opened t cwd path args) := by
    intro path hpath
    rw [hbackend, standard, byScheme_openOne (.inr hpath)]
    exact Local.openOne_eq path args
  have hglob : ∀ path, Target.scheme? path = some "file" →
      B.glob path args = Run.ofExcept (Local.listed t cwd path args) := by
    intro path hpath
    rw [hbackend, standard, byScheme_glob (.inr hpath)]
    exact Local.glob_eq_listed path args
  rw [hopen _ hurl, hopen _ (Target.scheme?_fileUrl a), hglob _ hurl, hglob _ (Target.scheme?_fileUrl a)]
  by_cases hfile : scheme = "file"
  · have hsame : scheme ++ "://" = "file://" := by
      rw [hfile]
      decide
    rw [hsame]
    exact ⟨iff_of_true (Run.alike_self Opened.Same.refl _) (.inl hfile),
      iff_of_true (Run.alike_self Eq.refl _) (.inl hfile)⟩
  · have hspelling : Local.OtherSpelling t cwd scheme := ⟨hscheme, hfile, hmissing.resolve_left hfile⟩
    simp only [hfile, false_or]
    exact ⟨Local.alike_opened_iff hspelling a _ args,
      Local.alike_listed_iff hspelling (Local.plainPath_fileUrl a) args⟩

def aloneAtRoot : Backend Id := standard ((alone .empty ["a.yaml"]).disk []) .unreachable {}

theorem aloneAtRoot_openOne {path : String} (h : Target.scheme? path = some "file") :
    aloneAtRoot.openOne path {} = Run.ofExcept (Local.opened (alone .empty ["a.yaml"]) [] path {}) :=
  (byScheme_openOne (.inr h)).trans (Local.openOne_eq path {})

theorem alike_spelled_missing : toLowerAscii "FILE" = "file" ∧
    FileTree.child? ("FILE" ++ ":") (alone .empty ["a.yaml"]) = none ∧
    Run.Alike Opened.Same (aloneAtRoot.openOne ("FILE" ++ "://" ++ "/b.yaml") {})
      (aloneAtRoot.openOne ("file://" ++ "/b.yaml") {}) := by
  have hscheme : toLowerAscii "FILE" = "file" := by decide +kernel
  have hmissing : FileTree.child? ("FILE" ++ ":") (alone .empty ["a.yaml"]) = none := rfl
  have hopen : aloneAtRoot.openOne ("file://" ++ "/b.yaml") {} = Run.raise (.notFound "file:///b.yaml") := by
    rw [aloneAtRoot_openOne (Target.scheme?_fileUrl _)]
    rfl
  have hspelled := alike_spelled_iff (B := aloneAtRoot) rfl hscheme (.inr ⟨_, rfl, hmissing⟩) "/b.yaml" {}
  refine ⟨hscheme, hmissing, hspelled.1.mpr (.inr (.inr ?_))⟩
  rw [hopen]
  exact .inr ⟨_, _, rfl, rfl, rfl⟩

/-- A file that is there is only found if the scheme is in small letters. -/
theorem not_alike_spelled : toLowerAscii "FILE" = "file" ∧
    ¬ Run.Alike Opened.Same (aloneAtRoot.openOne "FILE:///a.yaml" {}) (aloneAtRoot.openOne "file:///a.yaml" {}) ∧
    ¬ Run.Alike Eq (aloneAtRoot.glob "FILE:///*.yaml" {}) (aloneAtRoot.glob "file:///*.yaml" {}) := by
  have hopened : Local.opened (alone .empty ["a.yaml"]) [] "file:///a.yaml" {} = .ok ⟨_, .ofBytes .empty⟩ := rfl
  have hmissed : Local.opened (alone .empty ["a.yaml"]) [] "FILE:///a.yaml" {} = .error (.notFound _) := rfl
  have hlisted : aloneAtRoot.glob "file:///*.yaml" {} = pure ["/a.yaml"] :=
    Run.eq_pure_iff_toOption.mpr (by decide +kernel)
  have hnone : aloneAtRoot.glob "FILE:///*.yaml" {} = pure [] := Run.eq_pure_iff_toOption.mpr (by decide +kernel)
  refine ⟨by decide +kernel, ?_, ?_⟩
  · rw [aloneAtRoot_openOne (by decide +kernel), aloneAtRoot_openOne (by decide +kernel), hopened, hmissed,
      Run.alike_ofExcept]
    rintro (⟨_, _, h, -⟩ | ⟨_, _, -, h, -⟩) <;> cases h
  · rw [hlisted, hnone, Run.alike_pure_iff]
    exact nofun

end Backend
end Transclusion
