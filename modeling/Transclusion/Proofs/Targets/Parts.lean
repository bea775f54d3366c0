import Transclusion.Target

/-!
# The parts of a target

* `not_mem_of_isScheme` : what a scheme does not hold;
* `Target.scheme?_eq`, `Target.scheme?_of_isScheme` : the scheme of a text is what precedes its first colon;
* `Target.scheme?_toSlashes`, `Target.scheme?_append_slash`, `Target.scheme?_append` : paths keep their scheme,
  and those that are put together make none;
* `Address.scheme?_withPath`, `Address.withPath_split` : URLs that are put together from their parts;
* `Address.withPath_split_iff` : which targets are put together from their parts as they were;
* `Address.split_fileUrl` : the parts of the URL of a file.
-/

namespace Transclusion

open Text

/-! ## Schemes -/

theorem not_mem_of_isScheme {cs : List Char} {c : Char} (h : isScheme cs = true)
    (hc : (c.isAlphanum || c == '+' || c == '-' || c == '.') = false) : c ∉ cs := by
  unfold isScheme at h
  split at h
  · obtain ⟨hfirst, hrest⟩ := Bool.and_eq_true_iff.mp h
    intro hmem
    rcases List.mem_cons.mp hmem with rfl | hmem
    · simp [Char.isAlphanum, hfirst] at hc
    · rw [List.all_eq_true.mp hrest _ hmem] at hc
      cases hc
  · cases h

theorem isScheme_eq_false {cs : List Char} {c : Char} (hmem : c ∈ cs)
    (hc : (c.isAlphanum || c == '+' || c == '-' || c == '.') = false) : isScheme cs = false :=
  (Bool.not_eq_true _).mp fun h => not_mem_of_isScheme h hc hmem

theorem ne_nil_of_isScheme {cs : List Char} (h : isScheme cs = true) : cs ≠ [] := by
  rintro rfl
  cases h

theorem Path.exists_eq_of_isAbsolute {s : String} (h : isAbsolute s = true) : ∃ rest, s = "/" ++ rest := by
  obtain ⟨rest, hrest⟩ := List.head?_eq_some_iff.mp (eq_of_beq h)
  refine ⟨String.ofList rest, String.ext ?_⟩
  simp [hrest]

namespace Target

/-- The scheme is what precedes the first colon, if that can be one. -/
theorem scheme?_eq (s : String) : scheme? s =
    ((cutAt ':' s.toList).filter fun p => isScheme p.1).map fun p => toLowerAscii (String.ofList p.1) := by
  have hscheme : (Address.split s).scheme = String.ofList (Address.cutScheme s.toList).1 := rfl
  rw [scheme?, Address.scheme?, hscheme, Address.cutScheme]
  cases cutAt ':' s.toList with
  | none => rfl
  | some parts =>
    obtain ⟨before, after⟩ := parts
    cases h : isScheme before with
    | false => simp [h, Option.filter]
    | true => simp [h, Option.filter, ne_nil_of_isScheme h]

theorem scheme?_of_isScheme {scheme : String} (h : isScheme scheme.toList = true) (rest : String) :
    scheme? (scheme ++ ":" ++ rest) = some (toLowerAscii scheme) := by
  have htext : (scheme ++ ":" ++ rest).toList = scheme.toList ++ ':' :: rest.toList := by simp
  rw [scheme?_eq, htext, cutAt_append_cons (not_mem_of_isScheme h (by decide))]
  simp [Option.filter, h]

theorem scheme?_eq_none_iff {s : String} : scheme? s = none ↔
    ∀ before after, s.toList = before ++ ':' :: after → ':' ∉ before → isScheme before = false := by
  rw [scheme?_eq, Option.map_eq_none_iff, Option.filter_eq_none_iff]
  constructor
  · intro h before after hs hbefore
    simpa using h (before, after) (by rw [hs, cutAt_append_cons hbefore])
  · rintro h ⟨before, after⟩ hcut
    obtain ⟨hs, hbefore⟩ := cutAt_eq_some hcut
    simpa using h before after hs hbefore

/-- Neither backslashes nor slashes are in a scheme. -/
theorem scheme?_toSlashes (s : String) : scheme? (Path.toSlashes s) = scheme? s := by
  have hcolon : ∀ c : Char, (if c = '\\' then '/' else c) = ':' ↔ c = ':' := by
    intro c
    split
    · rename_i hc
      subst hc
      decide
    · rfl
  rw [scheme?_eq, scheme?_eq, Path.toSlashes, String.toList_map, cutAt_map hcolon]
  cases cutAt ':' s.toList with
  | none => rfl
  | some parts =>
    obtain ⟨before, after⟩ := parts
    by_cases hback : '\\' ∈ before
    · have hbefore := isScheme_eq_false hback (by decide)
      have hmap : isScheme (before.map fun c => if c = '\\' then '/' else c) = false :=
        isScheme_eq_false (List.mem_map.mpr ⟨'\\', hback, rfl⟩) (by decide)
      simp [Option.filter, hbefore, hmap]
    · have hmap : before.map (fun c => if c = '\\' then '/' else c) = before := by
        refine (List.map_congr_left fun c hc => ?_).trans (List.map_id before)
        have hne : c ≠ '\\' := fun heq => hback (heq ▸ hc)
        rw [if_neg hne, id]
      simp only [Option.map_some, Option.filter, hmap]
      split <;> rfl

theorem scheme?_append_slash (s t : String) : scheme? (s ++ "/" ++ t) = scheme? s := by
  have htext : (s ++ "/" ++ t).toList = s.toList ++ '/' :: t.toList := by simp
  rw [scheme?_eq, scheme?_eq, htext, cutAt_append]
  cases cutAt ':' s.toList with
  | some parts =>
    simp only [Option.map_some, Option.some_or, Option.filter]
    split <;> rfl
  | none =>
    -- a colon that comes later has the slash before it
    have hslash : ∀ before : List Char, isScheme (s.toList ++ '/' :: before) = false := fun before =>
      isScheme_eq_false (c := '/') (by simp) (by decide)
    cases hcut : cutAt ':' t.toList with
    | none => simp [cutAt, hcut]
    | some parts => simp [cutAt, hcut, hslash, Option.filter]

theorem scheme?_of_isAbsolute {s : String} (h : Path.isAbsolute s = true) : scheme? s = none := by
  obtain ⟨rest, rfl⟩ := Path.exists_eq_of_isAbsolute h
  rw [← String.empty_append (s := "/"), scheme?_append_slash]
  decide

/-- A path below a directory has no scheme if neither has one. -/
theorem scheme?_append {dir path : String} (hdir : scheme? dir = none) (hpath : scheme? path = none) :
    scheme? (Path.append dir path) = none := by
  unfold Path.append
  split
  · exact hpath
  split
  · rename_i hend
    rcases Bool.or_eq_true_iff.mp hend with hempty | hslash
    · obtain rfl : dir = "" := by simpa using hempty
      rw [String.empty_append]
      exact hpath
    · obtain ⟨front, hfront⟩ := List.getLast?_eq_some_iff.mp (eq_of_beq hslash)
      have htext : dir = String.ofList front ++ "/" ++ "" := by
        apply String.ext
        simp [hfront]
      rw [htext, scheme?_append_slash] at hdir
      rw [htext, String.append_empty, scheme?_append_slash]
      exact hdir
  · rw [scheme?_append_slash]
    exact hdir

end Target

/-! ## Splitting and putting together -/

namespace Address

variable {cs before rest scheme authority path : List Char} {after : Option (List Char)} {c : Char}

theorem cutScheme_cases (h : cutScheme cs = (scheme, rest)) :
    (cs = scheme ++ ':' :: rest ∧ isScheme scheme = true) ∨ (scheme = [] ∧ rest = cs) := by
  unfold cutScheme at h
  split at h
  · rename_i before after hcut
    split at h
    · rename_i hscheme
      cases h
      exact .inl ⟨(cutAt_eq_some hcut).1, hscheme⟩
    · cases h
      exact .inr ⟨rfl, rfl⟩
  · cases h
    exact .inr ⟨rfl, rfl⟩

/-- A query or fragment as it is written, after its mark. -/
def marked (mark : Char) : Option (List Char) → List Char
  | some cs => mark :: cs
  | none => []

theorem cutOptional_eq (h : cutOptional c cs = (before, after)) : cs = before ++ marked c after := by
  unfold cutOptional at h
  split at h
  · rename_i hcut
    cases h
    exact (cutAt_eq_some hcut).1
  · cases h
    exact (List.append_nil _).symm

/-- An authority stands between two slashes and the next one. Where the two are not in front, all is path. -/
theorem cutAuthority_cases (h : cutAuthority cs = (authority, path)) :
    (cs = '/' :: '/' :: (authority ++ path) ∧ (path = [] ∨ path.head? = some '/')) ∨
      (¬ ['/', '/'] <+: cs ∧ authority = [] ∧ path = cs) := by
  unfold cutAuthority at h
  split at h
  · rename_i after hafter
    cases h
    refine .inl ⟨?_, ?_⟩
    · rw [List.takeWhile_append_dropWhile]
      exact dropHead?_eq_some.mp hafter
    · cases hpath : after.dropWhile (· != '/') with
      | nil => exact .inl rfl
      | cons first path =>
        have hfirst := List.head?_dropWhile_not (· != '/') after
        rw [hpath] at hfirst
        exact .inr (by simpa using hfirst)
  · rename_i hnone
    cases h
    refine .inr ⟨?_, rfl, rfl⟩
    rintro ⟨after, rfl⟩
    rw [dropHead?_eq_some.mpr rfl] at hnone
    cases hnone

/-- The scheme of a URL and a colon come first. -/
theorem exists_withPath_eq (a : Address) (p : String) (h : a.scheme ≠ "") :
    ∃ rest, a.withPath p = a.scheme ++ ":" ++ rest := by
  refine ⟨?rest, ?eq⟩
  case eq =>
    simp only [withPath, if_neg (show ¬ a.scheme.isEmpty = true by simpa using h), String.append_assoc]
    exact rfl

theorem scheme_ne_empty {target scheme : String} (h : Target.scheme? target = some scheme) :
    (split target).scheme ≠ "" := by
  intro hempty
  simp [Target.scheme?, scheme?, hempty] at h

theorem isScheme_split {target : String} (h : (split target).scheme ≠ "") :
    isScheme (split target).scheme.toList = true := by
  have hscheme : (split target).scheme = String.ofList (cutScheme target.toList).1 := rfl
  have hne : (cutScheme target.toList).1 ≠ [] := by
    intro hnil
    exact h (by rw [hscheme, hnil])
  rw [hscheme, String.toList_ofList]
  exact ((cutScheme_cases rfl).resolve_right fun hnone => hne hnone.1).2

theorem scheme?_withPath {target : String} (h : (split target).scheme ≠ "") (p : String) :
    Target.scheme? ((split target).withPath p) = Target.scheme? target := by
  obtain ⟨rest, htext⟩ := exists_withPath_eq (split target) p h
  rw [htext, Target.scheme?_of_isScheme (isScheme_split h), Target.scheme?, scheme?, if_neg (by simpa using h)]

/-! ### All parts -/

def lead (a : Address) : String := if a.scheme.isEmpty then "" else a.scheme ++ ":"

def body (a : Address) : List Char :=
  a.authority.toList ++ a.path.toList ++ marked '?' (a.query.map String.toList) ++
    marked '#' (a.fragment.map String.toList)

/-- A path that is not joined to the name of a host. -/
def Separate (a : Address) : Prop := a.authority ≠ "" → a.path = "" ∨ Path.isAbsolute a.path = true

/-- `rest` is what follows the scheme of a target, and its parts are all of it. -/
structure Parted (target rest : String) : Prop where
  eq_lead : target = (split target).lead ++ rest
  eq_body : rest.toList = (if ['/', '/'] <+: rest.toList then ['/', '/'] else []) ++ (split target).body
  authority : ¬ ['/', '/'] <+: rest.toList → (split target).authority = ""
  separate : (split target).Separate
  query : (split target).query.isSome → (split target).scheme ≠ ""

theorem slashes_append_iff {cs ds : List Char} (h : ds.head? ≠ some '/') :
    ['/', '/'] <+: cs ++ ds ↔ ['/', '/'] <+: cs := by
  have hds : ∀ a, ¬ ('/' :: a) <+: ds := by
    rintro a ⟨after, rfl⟩
    exact h rfl
  match cs with
  | [] => simp [hds]
  | [c] => simp [List.cons_prefix_cons, hds]
  | c :: d :: rest => simp [List.cons_prefix_cons]

theorem exists_parted (target : String) : ∃ rest, Parted target rest := by
  rcases hs : cutScheme target.toList with ⟨scheme, rest⟩
  rcases hf : cutOptional '#' rest with ⟨main, fragment⟩
  rcases hq : (if scheme.isEmpty then (main, none) else cutOptional '?' main) with ⟨place, query⟩
  rcases ha : cutAuthority place with ⟨authority, path⟩
  have hsplit : split target = ⟨String.ofList scheme, String.ofList authority, String.ofList path,
      query.map String.ofList, fragment.map String.ofList⟩ := by
    unfold split
    simp only [hs, hf, hq, ha]
  have hquery : main = place ++ marked '?' query ∧ (query.isSome → scheme ≠ []) := by
    split at hq
    · cases hq
      simp [marked]
    · rename_i hne
      exact ⟨cutOptional_eq hq, fun _ => by simpa using hne⟩
  have hrest : rest = place ++ (marked '?' query ++ marked '#' fragment) := by
    rw [← List.append_assoc, ← hquery.1]
    exact cutOptional_eq hf
  have hslashes : ['/', '/'] <+: rest ↔ ['/', '/'] <+: place := by
    rw [hrest]
    refine slashes_append_iff ?_
    cases query <;> cases fragment <;> simp [marked]
  have hbody : (split target).body = authority ++ path ++ (marked '?' query ++ marked '#' fragment) := by
    rw [hsplit]
    cases query <;> cases fragment <;> simp [body, marked]
  refine ⟨String.ofList rest, ?_, ?_, ?_, ?_, ?_⟩
  · apply String.ext
    rcases cutScheme_cases hs with ⟨htarget, hscheme⟩ | ⟨rfl, rfl⟩
    · simp [hsplit, lead, htarget, ne_nil_of_isScheme hscheme]
    · simp [hsplit, lead]
  · rw [String.toList_ofList, hbody]
    rcases cutAuthority_cases ha with ⟨hplace, -⟩ | ⟨hnone, rfl, rfl⟩
    · have hfront : ['/', '/'] <+: rest := hslashes.mpr ⟨authority ++ path, hplace.symm⟩
      rw [if_pos hfront, hrest, hplace]
      simp
    · rw [if_neg fun hfront => hnone (hslashes.mp hfront), hrest]
      simp
  · intro hnone
    rw [String.toList_ofList, hslashes] at hnone
    rcases cutAuthority_cases ha with ⟨hplace, -⟩ | ⟨-, rfl, -⟩
    · exact absurd ⟨authority ++ path, hplace.symm⟩ hnone
    · rw [hsplit]
  · intro hne
    rcases cutAuthority_cases ha with ⟨-, hpath⟩ | ⟨-, rfl, -⟩
    · simpa [hsplit, Path.isAbsolute] using hpath
    · simp [hsplit] at hne
  · intro hsome
    simpa [hsplit] using hquery.2 (by simpa [hsplit] using hsome)

/-- The two slashes are written before an authority, and in every URL of scheme `file`. -/
theorem toList_withPath {a : Address} (h : a.Separate) : (a.withPath a.path).toList =
    a.lead.toList ++ ((if a.authority = "" ∧ a.scheme ≠ "file" then [] else ['/', '/']) ++ a.body) := by
  have hlead : (if a.scheme.isEmpty then "" else a.scheme ++ ":") = a.lead := rfl
  -- no third slash goes between the authority and its path
  have hslash : (if !a.authority.isEmpty && !a.path.isEmpty && !Path.isAbsolute a.path then "/" else "") = "" := by
    refine if_neg fun hall => ?_
    simp only [Bool.and_eq_true, Bool.not_eq_true', String.isEmpty_eq_false_iff] at hall
    rcases h hall.1.1 with hpath | hpath
    · exact hall.1.2 hpath
    · rw [hpath] at hall
      cases hall.2
  have hslashes : (if a.authority.isEmpty && a.scheme != "file" then "" else "//" ++ a.authority).toList =
      (if a.authority = "" ∧ a.scheme ≠ "file" then [] else ['/', '/']) ++ a.authority.toList := by
    by_cases hnone : a.authority = "" ∧ a.scheme ≠ "file"
    · simp [hnone]
    · rw [if_neg hnone, if_neg (by simpa using hnone)]
      simp
  rw [withPath, hlead, hslash, body]
  simp only [String.toList_append, hslashes]
  cases a.query <;> cases a.fragment <;> simp [marked]

/-- A target is put together from its parts as it was, if the two slashes are where they were. -/
theorem withPath_split_eq_iff {target rest : String} (h : Parted target rest) :
    (split target).withPath (split target).path = target ↔
      (['/', '/'] <+: rest.toList ↔ ¬ ((split target).authority = "" ∧ (split target).scheme ≠ "file")) := by
  have htarget : target.toList = (split target).lead.toList ++ rest.toList := by
    conv => lhs; rw [h.eq_lead]
    exact String.toList_append
  rw [← String.toList_inj, toList_withPath h.separate, htarget, List.append_cancel_left_eq]
  conv => lhs; rhs; rw [h.eq_body]
  rw [List.append_cancel_right_eq]
  by_cases hfront : ['/', '/'] <+: rest.toList <;>
    by_cases hnone : (split target).authority = "" ∧ (split target).scheme ≠ "file" <;> simp [hfront, hnone]

/-- The parts of a URL with an authority are put together to that URL. -/
theorem withPath_split {target : String} (hauthority : (split target).authority ≠ "") :
    (split target).withPath (split target).path = target := by
  obtain ⟨rest, h⟩ := exists_parted target
  have hfront : ['/', '/'] <+: rest.toList := Decidable.byContradiction fun hnone => hauthority (h.authority hnone)
  rw [withPath_split_eq_iff h]
  exact iff_of_true hfront fun hnone => hauthority hnone.1

/-- **A target is put together from its parts as it was, unless two slashes are lost or come in**: they are lost where
no authority follows them, but for the scheme `file`, and come in after this scheme where there were none. -/
theorem withPath_split_iff (target : String) : ∃ rest, target = (split target).lead ++ rest ∧
    ((split target).withPath (split target).path = target ↔
      ¬ (['/', '/'] <+: rest.toList ∧ (split target).authority = "" ∧ (split target).scheme ≠ "file") ∧
        ¬ ((split target).scheme = "file" ∧ ¬ ['/', '/'] <+: rest.toList)) ∧
    ((split target).authority ≠ "" → (split target).path = "" ∨ Path.isAbsolute (split target).path = true) ∧
    ((split target).query.isSome → (split target).scheme ≠ "") := by
  obtain ⟨rest, h⟩ := exists_parted target
  refine ⟨rest, h.eq_lead, ?_, h.separate, h.query⟩
  rw [withPath_split_eq_iff h]
  by_cases hfront : ['/', '/'] <+: rest.toList
  · simp [hfront]
  · simp [hfront, h.authority hfront]

example : ((split "http:///a").withPath (split "http:///a").path, (split "file:a").withPath (split "file:a").path) =
    ("http:/a", "file://a") := by decide +kernel

theorem cutOptional_cons {d : Char} (h : d ≠ c) (cs : List Char) :
    cutOptional c (d :: cs) = (d :: (cutOptional c cs).1, (cutOptional c cs).2) := by
  unfold cutOptional
  rw [cutAt, if_neg h]
  cases cutAt c cs <;> rfl

/-- The URL of a file has its path from the root up to the first mark, and no authority. -/
theorem split_fileUrl (rest : String) : ∃ place query fragment,
    split ("file:///" ++ rest) = ⟨"file", "", "/" ++ place, query, fragment⟩ ∧
      rest.toList = place.toList ++ marked '?' (query.map String.toList) ++
        marked '#' (fragment.map String.toList) := by
  rcases hf : cutOptional '#' rest.toList with ⟨main, fragment⟩
  rcases hq : cutOptional '?' main with ⟨place, query⟩
  have htext : ("file:///" ++ rest).toList = "file".toList ++ ':' :: '/' :: '/' :: '/' :: rest.toList := by simp
  have hscheme : cutScheme ("file:///" ++ rest).toList = ("file".toList, '/' :: '/' :: '/' :: rest.toList) := by
    rw [cutScheme, htext, cutAt_append_cons (by decide)]
    rfl
  refine ⟨String.ofList place, query.map String.ofList, fragment.map String.ofList, ?_, ?_⟩
  · have hpath : String.ofList ('/' :: place) = "/" ++ String.ofList place := by
      apply String.ext
      simp
    have hmain : cutOptional '#' ('/' :: '/' :: '/' :: rest.toList) = ('/' :: '/' :: '/' :: main, fragment) := by
      simp [cutOptional_cons, hf]
    have hplace : cutOptional '?' ('/' :: '/' :: '/' :: main) = ('/' :: '/' :: '/' :: place, query) := by
      simp [cutOptional_cons, hq]
    have hauthority : cutAuthority ('/' :: '/' :: '/' :: place) = ([], '/' :: place) := by
      simp [cutAuthority, dropHead?]
    unfold split
    rw [hscheme]
    simp [hmain, hplace, hauthority, hpath]
  · rw [cutOptional_eq hf, cutOptional_eq hq]
    cases query <;> cases fragment <;> simp [marked]

end Address
end Transclusion
