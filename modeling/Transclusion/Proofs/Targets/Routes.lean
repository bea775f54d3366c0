import Transclusion.Disk.Tree
import Transclusion.Dispatch
import Transclusion.Proofs.Targets.Parts

/-!
# Where a target leads

A target names its scheme before it is joined to a base directory, and a backend looks for one again in what has come
of that. The wildcards that make a target one of several files are looked for in the whole of it.

* `Path.hasWildcard_append`, `Path.hasWildcard_below`, `Address.hasWildcard_withPath` : where wildcards can be;
* `Target.scheme_of_resolve` : both looks find the same scheme, and so the backend is the one of the target;
* `Target.route_of_url` : a URL is one of several files for a wildcard in any of its parts, and for a query.
-/

namespace Transclusion

/-! ## Wildcards -/

namespace Path

@[simp]
theorem hasWildcard_append (s t : String) : hasWildcard (s ++ t) = (hasWildcard s || hasWildcard t) := by
  simp [hasWildcard]

theorem hasWildcard_toSlashes (s : String) : hasWildcard (toSlashes s) = hasWildcard s := by
  have hchar : ∀ c : Char, isWildcard (if c = '\\' then '/' else c) = isWildcard c := by
    intro c
    split
    · rename_i hc
      subst hc
      decide
    · rfl
  simp [hasWildcard, toSlashes, Function.comp_def, hchar]

/-- A directory without wildcards brings none in. -/
theorem hasWildcard_below {dir : String} (hdir : hasWildcard dir = false) (path : String) :
    hasWildcard (append dir path) = hasWildcard path := by
  unfold append
  split
  · rfl
  split
  · rw [hasWildcard_append, hdir, Bool.false_or]
  · rw [hasWildcard_append, hasWildcard_append, hdir, show hasWildcard "/" = false by decide, Bool.false_or,
      Bool.false_or]

end Path

theorem hasWildcard_of_isScheme {scheme : String} (h : isScheme scheme.toList = true) :
    Path.hasWildcard scheme = false := by
  rw [Path.hasWildcard, List.any_eq_false]
  intro c hc hwild
  simp only [Path.isWildcard, Bool.or_eq_true, beq_iff_eq] at hwild
  rcases hwild with ((rfl | rfl) | rfl) | rfl <;> exact not_mem_of_isScheme h (by decide) hc

/-- The wildcards of a URL are those of its parts, and the mark of a query is one. -/
theorem Address.hasWildcard_withPath {a : Address} (h : isScheme a.scheme.toList = true) (p : String) :
    Path.hasWildcard (a.withPath p) =
      (Path.hasWildcard a.authority || Path.hasWildcard p || a.query.isSome || a.fragment.any Path.hasWildcard) := by
  have hcolon : Path.hasWildcard (if a.scheme.isEmpty then "" else a.scheme ++ ":") = false := by
    split
    · rfl
    · rw [Path.hasWildcard_append, hasWildcard_of_isScheme h]
      rfl
  have hauthority : Path.hasWildcard (if a.authority.isEmpty && a.scheme != "file" then "" else "//" ++ a.authority) =
      Path.hasWildcard a.authority := by
    split
    · rename_i hnone
      rw [String.isEmpty_iff.mp (Bool.and_eq_true_iff.mp hnone).1]
    · rw [Path.hasWildcard_append, show Path.hasWildcard "//" = false by decide, Bool.false_or]
  have hslash : Path.hasWildcard (if !a.authority.isEmpty && !p.isEmpty && !Path.isAbsolute p then "/" else "") =
      false := by
    split <;> rfl
  have hquery : Path.hasWildcard "?" = true := by decide
  have hfragment : Path.hasWildcard "#" = false := by decide
  simp only [withPath, Path.hasWildcard_append, hcolon, hauthority, hslash, Bool.false_or]
  cases a.query <;> cases a.fragment <;> simp [hquery, hfragment, show Path.hasWildcard "" = false by decide]

namespace Target

/-! ## Schemes and backends -/

theorem resolve_of_scheme?_eq_none {target dir : String} (h : scheme? target = none) :
    (resolve target (some dir)).path = Path.toSlashes (Path.append dir target) := by
  rw [scheme?] at h
  simp [resolve, h]

theorem resolve_of_scheme_ne {target dir : String} (h : (Address.split target).scheme ≠ "") :
    (resolve target (some dir)).path =
      (Address.split target).withPath (Path.toSlashes (Path.append dir (Address.split target).path)) := by
  simp [resolve, Address.scheme?, h]

/-- The scheme is told before the target is joined to anything. -/
theorem scheme_resolve (target : String) (base : Option String) : (resolve target base).scheme = scheme? target := by
  unfold resolve
  cases base with
  | none => rfl
  | some dir =>
    dsimp only
    split <;> rfl

theorem resolve_of_isAbsolute {path : String} (habsolute : Path.isAbsolute path = true) (hback : '\\' ∉ path.toList)
    (base : Option String) : resolve path base = ⟨none, path⟩ := by
  have hscheme := scheme?_of_isAbsolute habsolute
  have hpath : (resolve path base).path = path := by
    cases base with
    | none => rfl
    | some dir =>
      rw [resolve_of_scheme?_eq_none hscheme, Path.append_of_isAbsolute habsolute, Path.toSlashes_of_not_mem hback]
  calc resolve path base = ⟨(resolve path base).scheme, (resolve path base).path⟩ := rfl
    _ = ⟨none, path⟩ := by rw [hpath, scheme_resolve, hscheme]

theorem scheme?_fileUrl (path : String) : scheme? ("file://" ++ path) = some "file" := by
  have htext : "file://" ++ path = "file" ++ ":" ++ ("//" ++ path) := by
    rw [← String.append_assoc]
    rfl
  rw [htext, scheme?_of_isScheme (by decide), show Text.toLowerAscii "file" = "file" by decide +kernel]

theorem resolve_fileUrl_of_isAbsolute {path : String} (habsolute : Path.isAbsolute path = true)
    (hback : '\\' ∉ path.toList) (base : Option String) : resolve ("file://" ++ path) base = ⟨some "file", "file://" ++ path⟩ := by
  obtain ⟨rest, rfl⟩ := Path.exists_eq_of_isAbsolute habsolute
  have htext : "file://" ++ ("/" ++ rest) = "file:///" ++ rest := by
    rw [← String.append_assoc]
    rfl
  obtain ⟨place, query, fragment, hsplit, hrest⟩ := Address.split_fileUrl rest
  have hscheme := scheme?_fileUrl ("/" ++ rest)
  rw [htext] at hscheme
  have hplace : '\\' ∉ ("/" ++ place).toList := by
    rw [String.toList_append, hrest] at hback
    simp only [String.toList_append, List.mem_append, not_or] at hback ⊢
    exact ⟨hback.1, hback.2.1.1⟩
  have hwhole : (Address.split ("file:///" ++ rest)).withPath ("/" ++ place) = "file:///" ++ rest := by
    apply String.ext
    rw [hsplit, String.toList_append, hrest]
    cases query <;> cases fragment <;> simp [Address.withPath, Address.marked]
  have hpath : (resolve ("file:///" ++ rest) base).path = "file:///" ++ rest := by
    cases base with
    | none => rfl
    | some dir =>
      have hjoined : Path.append dir ("/" ++ place) = "/" ++ place :=
        Path.append_of_isAbsolute (by simp [Path.isAbsolute])
      rw [resolve_of_scheme_ne (Address.scheme_ne_empty hscheme),
        show (Address.split ("file:///" ++ rest)).path = "/" ++ place by rw [hsplit], hjoined,
        Path.toSlashes_of_not_mem hplace, hwhole]
  rw [htext]
  calc resolve ("file:///" ++ rest) base =
      ⟨(resolve ("file:///" ++ rest) base).scheme, (resolve ("file:///" ++ rest) base).path⟩ := rfl
    _ = ⟨some "file", "file:///" ++ rest⟩ := by rw [hpath, scheme_resolve, hscheme]

/-- **The scheme of a target is the scheme of what it resolves to.** Joining it to a base directory without a scheme
makes none and loses none, so that each target goes to the backend of its own scheme. -/
theorem scheme_of_resolve {m : Type → Type} (files web : Backend m) (target : String) {base : Option String}
    (hbase : ∀ dir, base = some dir → scheme? dir = none) :
    scheme? (resolve target base).path = (resolve target base).scheme ∧
      (resolve target base).scheme = scheme? target ∧
      Backend.choose files web (resolve target base).path =
        match scheme? target with
        | none => .ok files
        | some scheme =>
          if scheme = "file" then .ok files
          else if scheme = "http" ∨ scheme = "https" then .ok web
          else .error (.unsupportedScheme scheme (resolve target base).path) := by
  have hscheme := scheme_resolve target base
  have hpath : scheme? (resolve target base).path = scheme? target := by
    cases base with
    | none => rfl
    | some dir =>
      cases hnone : scheme? target with
      | none =>
        rw [resolve_of_scheme?_eq_none hnone, scheme?_toSlashes, scheme?_append (hbase dir rfl) hnone]
      | some scheme =>
        have hne := Address.scheme_ne_empty hnone
        rw [resolve_of_scheme_ne hne, Address.scheme?_withPath hne, hnone]
  refine ⟨hpath.trans hscheme.symm, hscheme, ?_⟩
  rw [Backend.choose, hpath]
  cases scheme? target with
  | none => rfl
  | some scheme =>
    dsimp only
    split <;> simp_all

theorem scheme_of_resolve_colons :
    scheme? "a/b:c" = none ∧ scheme? "d:\\e.yaml" = none ∧
      (resolve "d:\\e.yaml" (some "a/b:c")).path = "a/b:c/d:/e.yaml" ∧ scheme? "a/b:c/d:/e.yaml" = none ∧
      Backend.choose (Local.backend ((FileTree.dir []).disk [])) (Http.backend (.unreachable : Web Id) {})
        "a/b:c/d:/e.yaml" = .ok (Local.backend ((FileTree.dir []).disk [])) := by
  have hbase : scheme? "a/b:c" = none := by decide
  have htarget : scheme? "d:\\e.yaml" = none := by decide
  have hpath : (resolve "d:\\e.yaml" (some "a/b:c")).path = "a/b:c/d:/e.yaml" := by decide +kernel
  obtain ⟨hresolved, hscheme, hchoose⟩ := scheme_of_resolve (Local.backend ((FileTree.dir []).disk []))
    (Http.backend (.unreachable : Web Id) {}) "d:\\e.yaml" (show ∀ dir, some "a/b:c" = some dir → scheme? dir = none by
      simpa using hbase)
  rw [hpath, hscheme, htarget] at hresolved
  rw [hpath, htarget] at hchoose
  exact ⟨hbase, htarget, hpath, hresolved, hchoose⟩

/-! ## Routes -/

/-- No other wildcards are in a URL that is joined to a directory than were in its parts. -/
theorem hasWildcard_resolve {target : String} {base : Option String} (hscheme : (scheme? target).isSome)
    (hauthority : (Address.split target).authority ≠ "")
    (hbase : ∀ dir, base = some dir → Path.hasWildcard dir = false) :
    Path.hasWildcard (resolve target base).path =
      (Path.hasWildcard (Address.split target).authority || Path.hasWildcard (Address.split target).path ||
        (Address.split target).query.isSome || (Address.split target).fragment.any Path.hasWildcard) := by
  obtain ⟨scheme, hsome⟩ := Option.isSome_iff_exists.mp hscheme
  have hne := Address.scheme_ne_empty hsome
  cases base with
  | none =>
    have htarget := Address.withPath_split hauthority
    rw [← Address.hasWildcard_withPath (Address.isScheme_split hne), htarget]
    rfl
  | some dir =>
    rw [resolve_of_scheme_ne hne, Address.hasWildcard_withPath (Address.isScheme_split hne), Path.hasWildcard_toSlashes,
      Path.hasWildcard_below (hbase dir rfl)]

/-- **A URL is one file if there are wildcards in none of its parts, and no query.** Its path alone does not tell. The
directory that it is joined to does not count, if there are none in it. -/
theorem route_of_url {target : String} {base : Option String} (hscheme : (scheme? target).isSome)
    (hauthority : (Address.split target).authority ≠ "")
    (hbase : ∀ dir, base = some dir → Path.hasWildcard dir = false) :
    ((resolve target base).route = .remoteSingle ↔
      Path.hasWildcard (Address.split target).authority = false ∧ Path.hasWildcard (Address.split target).path = false ∧
        (Address.split target).query = none ∧
        ∀ fragment, (Address.split target).fragment = some fragment → Path.hasWildcard fragment = false) ∧
      ((resolve target base).route ≠ .remoteSingle → (resolve target base).route = .remoteGlob) := by
  have hroute : (resolve target base).route =
      if Path.hasWildcard (resolve target base).path then .remoteGlob else .remoteSingle := by
    rw [Resolved.route, scheme_resolve, hscheme]
    cases Path.hasWildcard (resolve target base).path <;> rfl
  have hsingle : (resolve target base).route = .remoteSingle ↔ Path.hasWildcard (resolve target base).path = false := by
    rw [hroute]
    split <;> simp_all
  constructor
  · rw [hsingle, hasWildcard_resolve hscheme hauthority hbase]
    simp [and_assoc, Option.any_eq_false]
  · intro hne
    rw [hroute, if_pos ((Bool.not_eq_false _).mp fun h => hne (hsingle.mpr h))]

theorem route_of_url_fragment :
    (scheme? "https://h/a.yaml#b").isSome ∧ (Address.split "https://h/a.yaml#b").authority ≠ "" ∧
      Path.hasWildcard "conf" = false ∧ (resolve "https://h/a.yaml#b" (some "conf")).route = .remoteSingle := by
  have hscheme : (scheme? "https://h/a.yaml#b").isSome := by decide
  have hauthority : (Address.split "https://h/a.yaml#b").authority ≠ "" := by decide
  have hbase : Path.hasWildcard "conf" = false := by decide
  have hroute := route_of_url hscheme hauthority (show ∀ dir, some "conf" = some dir → Path.hasWildcard dir = false by
    simpa using hbase)
  refine ⟨hscheme, hauthority, hbase, hroute.1.mpr ⟨by decide, by decide, by decide, fun fragment h => ?_⟩⟩
  obtain rfl : "b" = fragment := Option.some_inj.mp ((show (Address.split "https://h/a.yaml#b").fragment = some "b" by
    decide).symm.trans h)
  decide

/-- A URL of the web without a wildcard in its path, which is one of several files all the same. -/
def severalBeyondPath (target : String) : Prop :=
  scheme? target = some "http" ∧ (Address.split target).authority ≠ "" ∧
    Path.hasWildcard (Address.split target).path = false ∧ (resolve target none).route = .remoteGlob

instance : DecidablePred severalBeyondPath := fun _ => inferInstanceAs (Decidable (_ ∧ _))

/-- A query, a host in brackets and a fragment make several files of a URL. -/
theorem route_of_url_beyond_path : severalBeyondPath "http://h/a.yaml?x=1" ∧ severalBeyondPath "http://[::1]/a.yaml" ∧
    severalBeyondPath "http://h/a.yaml#b*" := by
  decide +kernel

end Target
end Transclusion
