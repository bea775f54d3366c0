import Transclusion.Url.Reading

/-!
# URLs of directories

* `Page.IsName` : the names that are links as they stand;
* `Url.IsDirectory` : the URLs that names can be put after, with `Url.append`;
* `Url.join?_name`, `Url.join?_nameSlash` : a name on the page of a directory leads to that name in it;
* `Url.IsDirectory.join?_up_append` : `../` leads back;
* `Url.IsDirectory.of_ofText?` : a text that ends with a slash spells the URL of a directory.
-/

namespace Transclusion

open Text

/-! ## Names -/

namespace Page

/-- Letters, digits and the three signs that mean nothing in a URL. -/
def isNameChar (c : Char) : Bool := c.isAlphanum || c == '_' || c == '-' || c == '.'

def IsName (name : String) : Prop :=
  name ≠ "" ∧ name ≠ "." ∧ name ≠ ".." ∧ name.toList.all isNameChar = true

instance : DecidablePred IsName := fun _ => inferInstanceAs (Decidable (_ ∧ _ ∧ _ ∧ _))

theorem toNat_of_isNameChar {c : Char} (h : isNameChar c = true) : c.toNat < 128 := by
  rw [isNameChar, Bool.or_eq_true, Bool.or_eq_true, Bool.or_eq_true] at h
  rcases h with ((h | h) | h) | h
  · change ((decide (65 ≤ c.val ∧ c.val ≤ 90) || (97 ≤ c.val && c.val ≤ 122)) ||
      (48 ≤ c.val && c.val ≤ 57)) = true at h
    simp only [Bool.or_eq_true, Bool.and_eq_true, decide_eq_true_eq, UInt32.le_iff_toNat_le] at h
    have hbounds : UInt32.toNat 90 = 90 ∧ UInt32.toNat 122 = 122 ∧ UInt32.toNat 57 = 57 := by decide
    rw [← Char.toNat_val]
    omega
  all_goals
    obtain rfl := beq_iff_eq.mp h
    decide

theorem inPath_of_isNameChar {c : Char} (h : isNameChar c = true) :
    Percent.inPath c = true ∧ c ∉ ['/', '\\', ':', '?', '#', '%'] ∧ Url.isOuter c = false := by
  -- there are so few of them that each can be looked at
  have hall : ∀ n < 128, isNameChar (Char.ofNat n) = true → Percent.inPath (Char.ofNat n) = true ∧
      Char.ofNat n ∉ ['/', '\\', ':', '?', '#', '%'] ∧ Url.isOuter (Char.ofNat n) = false := by
    decide +kernel
  have := hall c.toNat (toNat_of_isNameChar h)
  rw [Char.ofNat_toNat] at this
  exact this h

/-- The characters of relative links to names. -/
def isStepChar (c : Char) : Bool := isNameChar c || c == '/'

theorem of_isStepChar {c : Char} (h : isStepChar c = true) :
    c ∉ ['\\', ':', '?', '#'] ∧ Url.isOuter c = false := by
  rcases Bool.or_eq_true _ _ |>.mp h with h | h
  · obtain ⟨-, hnot, houter⟩ := inPath_of_isNameChar h
    exact ⟨fun hmem => hnot (by simp_all), houter⟩
  · obtain rfl : c = '/' := by simpa using h
    decide

theorem isStepChar_up : ∀ c ∈ "../".toList, isStepChar c = true :=
  List.all_eq_true.mp (by decide)

namespace IsName

variable {name : String}

theorem isNameChar (h : IsName name) {c : Char} (hc : c ∈ name.toList) : isNameChar c = true :=
  List.all_eq_true.mp h.2.2.2 c hc

theorem not_mem (h : IsName name) {c : Char} (hc : c ∈ ['/', '\\', ':', '?', '#', '%']) : c ∉ name.toList :=
  fun hmem => (inPath_of_isNameChar (h.isNameChar hmem)).2.1 hc

theorem isStepChar (h : IsName name) {c : Char} (hc : c ∈ name.toList) : isStepChar c = true := by
  simp [Page.isStepChar, h.isNameChar hc]

theorem isStepChar_slash (h : IsName name) : ∀ c ∈ (name ++ "/").toList, Page.isStepChar c = true := by
  rw [String.toList_append]
  intro c hc
  rcases List.mem_append.mp hc with hc | hc
  · exact h.isStepChar hc
  · obtain rfl : c = '/' := by simpa using hc
    rfl

theorem toList_ne_nil (h : IsName name) : name.toList ≠ [] := by
  simpa using h.1

/-- The points can be spelled in other ways, but not without a percent sign. -/
theorem isUp_eq_false (h : IsName name) : Url.isUp name.toList = false := by
  have hspelled : ∀ s ∈ Url.points (Url.points [[]]), s = "..".toList ∨ '%' ∈ s := by decide
  refine Bool.eq_false_iff.mpr fun hup => ?_
  rcases hspelled _ (List.contains_iff_mem.mp hup) with heq | hmem
  · exact h.2.2.1 (String.toList_inj.mp heq)
  · exact h.not_mem (by decide) hmem

theorem isHere_eq_false (h : IsName name) : Url.isHere name.toList = false := by
  have hspelled : ∀ s ∈ Url.points [[]], s = ".".toList ∨ '%' ∈ s := by decide
  refine Bool.eq_false_iff.mpr fun hhere => ?_
  rcases hspelled _ (List.contains_iff_mem.mp hhere) with heq | hmem
  · exact h.2.1 (String.toList_inj.mp heq)
  · exact h.not_mem (by decide) hmem

theorem encode (h : IsName name) : Percent.encode Percent.inPath name.toList = name.toList :=
  Percent.encode_of_all_pass (List.all_eq_true.mpr fun _ hc => (inPath_of_isNameChar (h.isNameChar hc)).1)

end IsName

end Page

/-! ## URLs of directories -/

namespace Url

/-- A URL of the web that ends with a slash, so that what is put after it names something in it. -/
structure IsDirectory (u : Url) : Prop where
  web : u.isWeb = true
  host : u.authority.isSome = true
  opened : u.path.toList.head? = some '/'
  closed : u.path.toList.getLast? = some '/'
  query : u.query = none
  fragment : u.fragment = none

theorem IsDirectory.plain {u : Url} (h : u.IsDirectory) : u.plain = u := by
  obtain ⟨scheme, authority, path, query, fragment⟩ := u
  obtain rfl := h.query
  obtain rfl := h.fragment
  rfl

def append (u : Url) (s : String) : Url := { u with path := u.path ++ s }

theorem text_append {u : Url} (h : u.IsDirectory) (s : String) : (u.append s).text = u.text ++ s := by
  obtain ⟨scheme, authority, path, query, fragment⟩ := u
  obtain ⟨a, rfl⟩ := Option.isSome_iff_exists.mp h.host
  obtain rfl := h.query
  obtain rfl := h.fragment
  simp [append, text, String.append_assoc]

/-- The path of a directory by its names. -/
def folder (names : List (List Char)) : String := rooted (names ++ [[]])

theorem rooted_concat (names : List (List Char)) (name : List Char) :
    rooted (names ++ [name]) = folder names ++ String.ofList name := by
  cases names with
  | nil => simp [folder, rooted, joinWith]
  | cons first more =>
    simp only [folder, rooted, joinWith_concat (List.cons_ne_nil first more)]
    simp [String.append_assoc]

theorem folder_concat (names : List (List Char)) (name : List Char) :
    folder (names ++ [name]) = folder names ++ String.ofList (name ++ ['/']) := by
  rw [folder, rooted, joinWith_concat (by simp), ← List.cons_append, String.ofList_append, ← rooted,
    rooted_concat, String.append_assoc, ← String.ofList_append]

theorem head?_folder (names : List (List Char)) : (folder names).toList.head? = some '/' := by
  simp [folder, rooted]

theorem getLast?_folder (names : List (List Char)) : (folder names).toList.getLast? = some '/' := by
  rcases List.eq_nil_or_concat names with rfl | ⟨before, last, rfl⟩
  · simp [folder, rooted, joinWith]
  · rw [List.concat_eq_append, folder_concat, String.toList_append, String.toList_ofList, ← List.append_assoc,
      List.getLast?_concat]

theorem directory_folder {names : List (List Char)} (h : ∀ name ∈ names, '/' ∉ name) :
    directory (folder names) = names.reverse := by
  have hfree : ∀ piece ∈ names ++ [[]], '/' ∉ piece := by
    intro piece hpiece
    rcases List.mem_append.mp hpiece with hmem | hmem
    · exact h piece hmem
    · rw [List.mem_singleton.mp hmem]
      exact List.not_mem_nil
  rw [directory, folder, rooted, String.toList_ofList, List.drop_one, List.tail_cons,
    splitOn_joinWith (by simp) hfree]
  simp

/-- Nothing comes after the last slash. -/
def Closed (cs : List Char) : Prop := cs = [] ∨ cs.getLast? = some '/'

theorem Closed.of_suffix {cs ds : List Char} (h : cs <:+ ds) (hd : Closed ds) : Closed cs := by
  obtain ⟨before, rfl⟩ := h
  rcases List.eq_nil_or_concat cs with rfl | ⟨init, c, rfl⟩
  · exact .inl rfl
  · refine .inr ?_
    have hlast := hd.resolve_left (by simp)
    rw [List.concat_eq_append, ← List.append_assoc, List.getLast?_concat] at hlast
    rw [List.concat_eq_append, List.getLast?_concat, hlast]

theorem Closed.exists_splitOn {cs : List Char} (h : Closed cs) : ∃ names, splitOn '/' cs = names ++ [[]] := by
  rcases List.eq_nil_or_concat cs with rfl | ⟨before, c, rfl⟩
  · exact ⟨[], rfl⟩
  · have hlast := h.resolve_left (by simp)
    rw [List.concat_eq_append, List.getLast?_concat] at hlast
    obtain rfl := Option.some.inj hlast
    refine ⟨splitOn '/' before, ?_⟩
    rw [List.concat_eq_append, splitOn_append]
    rfl

/-- A backslash may count as a slash, but a slash does not count as anything else. -/
theorem Closed.exists_pieces {cs : List Char} (h : Closed cs) (special : Bool) :
    ∃ names, pieces special cs = names ++ [[]] := by
  refine Closed.exists_splitOn ?_
  rcases h with rfl | hlast
  · exact .inl rfl
  · exact .inr (by rw [List.getLast?_map, hlast]; simp)

theorem IsDirectory.exists_folder {u : Url} (h : u.IsDirectory) :
    ∃ names, (∀ name ∈ names, '/' ∉ name) ∧ u.path = folder names := by
  obtain ⟨rest, hpath⟩ := List.head?_eq_some_iff.mp h.opened
  have hclosed : Closed u.path.toList := .inr h.closed
  obtain ⟨names, hnames⟩ := (Closed.of_suffix ⟨['/'], hpath.symm⟩ hclosed).exists_splitOn
  refine ⟨names, fun name hname =>
    not_mem_of_mem_splitOn (show name ∈ splitOn '/' rest by simp [hnames, hname]), ?_⟩
  rw [folder, rooted, ← hnames, joinWith_splitOn, ← hpath, String.ofList_toList]

/-! ## Joining -/

theorem cleaned_eq_self {cs : List Char} (h : ∀ c ∈ cs, isOuter c = false) : cleaned cs = cs := by
  have hkeep : ∀ {ds : List Char}, (∀ c ∈ ds, isOuter c = false) → ds.dropWhile isOuter = ds := by
    intro ds hds
    cases ds with
    | nil => rfl
    | cons d ds => simp [hds d List.mem_cons_self]
  rw [cleaned, hkeep h, hkeep (by simpa using h), List.reverse_reverse, List.filter_eq_self]
  intro c hc
  have hout := h c hc
  by_cases hwhite : c = '\t' ∨ c = '\n' ∨ c = '\r'
  · rcases hwhite with rfl | rfl | rfl <;> exact absurd hout (by decide)
  · simpa [not_or, and_assoc] using hwhite

theorem cutOptional_of_not_mem {c : Char} {cs : List Char} (h : c ∉ cs) : cutOptional c cs = (cs, none) := by
  rw [cutOptional, cutAt_eq_none_iff.mpr h]

theorem pieces_of_not_mem {special : Bool} {cs : List Char} (h : '\\' ∉ cs) :
    pieces special cs = splitOn '/' cs := by
  have hmap : cs.map (fun c => if isSlash special c then '/' else c) = cs := by
    refine (List.map_congr_left fun c hc => ?_).trans (List.map_id cs)
    have hne : c ≠ '\\' := fun heq => h (heq ▸ hc)
    by_cases hslash : c = '/' <;> simp [isSlash, hne, hslash]
  rw [pieces, hmap]

/-- A relative link changes the path alone: it leads on from the directory. -/
theorem join?_relative {u : Url} (hu : u.IsDirectory) {link : String}
    (hchars : ∀ c ∈ link.toList, Page.isStepChar c = true) (hne : link.toList ≠ [])
    (hhead : link.toList.head? ≠ some '/') : u.join? link =
      some { u with path := rooted (place (directory u.path) (splitOn '/' link.toList)) } := by
  have hnot : ∀ {c}, c ∈ ['\\', ':', '?', '#'] → c ∉ link.toList := fun hc hmem =>
    (Page.of_isStepChar (hchars _ hmem)).1 hc
  have hscheme : cutScheme? link.toList = none := by
    rw [cutScheme?, cutAt_eq_none_iff.mpr (hnot (by decide))]
    rfl
  have htail : cutTail link.toList = (link.toList, none, none) := by
    simp only [cutTail, cutOptional_of_not_mem (hnot (show '#' ∈ _ by decide)),
      cutOptional_of_not_mem (hnot (show '?' ∈ _ by decide))]
  have hclean := cleaned_eq_self fun c hc => (Page.of_isStepChar (hchars c hc)).2
  have hpieces : pieces (isSpecial u.scheme) link.toList = splitOn '/' link.toList :=
    pieces_of_not_mem (hnot (by decide))
  have hrelative : relative? u link.toList =
      some (withTail u.scheme u.authority (directory u.path) link.toList) := by
    cases hlink : link.toList with
    | nil => exact absurd hlink hne
    | cons c rest =>
      have hc : ∀ d ∈ ['\\', ':', '?', '#'], c ≠ d := fun d hd heq =>
        hnot hd (by rw [hlink, heq]; exact List.mem_cons_self)
      have hslash : c ≠ '/' := fun heq => hhead (by rw [hlink, heq]; rfl)
      simp [relative?, isSlash, hslash, hc '\\' (by decide), hc '?' (by decide), hc '#' (by decide)]
  simp only [join?, hclean, hscheme, hrelative, withTail, htail, hpieces, Option.map_none]
  rw [hu.query, hu.fragment]

theorem place_nil (done : List (List Char)) : place done [[]] = done.reverse ++ [[]] := by
  rw [place, if_neg (by decide), if_neg (by decide)]
  exact List.reverse_cons

section
variable {u : Url} {name : String}

theorem join?_name (hu : u.IsDirectory) (hn : Page.IsName name) : u.join? name = some (u.append name) := by
  have hslash := hn.not_mem (c := '/') (by decide)
  rw [join?_relative hu (fun c hc => hn.isStepChar hc) hn.toList_ne_nil
    fun hhead => hslash (List.mem_of_mem_head? hhead)]
  obtain ⟨names, hnames, hpath⟩ := hu.exists_folder
  have hplace : place (directory u.path) (splitOn '/' name.toList) = names ++ [name.toList] := by
    rw [hpath, directory_folder hnames, splitOn_of_not_mem hslash, place, if_neg (by simp [hn.isUp_eq_false]),
      if_neg (by simp [hn.isHere_eq_false]), hn.encode, List.reverse_cons, List.reverse_reverse]
  rw [hplace, rooted_concat, String.ofList_toList, ← hpath]
  rfl

theorem join?_nameSlash (hu : u.IsDirectory) (hn : Page.IsName name) :
    u.join? (name ++ "/") = some (u.append (name ++ "/")) := by
  have hslash := hn.not_mem (c := '/') (by decide)
  have htext : (name ++ "/").toList = name.toList ++ ['/'] := by simp
  rw [join?_relative hu hn.isStepChar_slash (by simp [htext]) fun hhead => hslash ?_]
  · obtain ⟨names, hnames, hpath⟩ := hu.exists_folder
    have hplace : place (directory u.path) (splitOn '/' (name ++ "/").toList) =
        names ++ [name.toList] ++ [[]] := by
      rw [hpath, directory_folder hnames, htext, splitOn_append, splitOn_of_not_mem hslash, splitOn,
        List.singleton_append, place, if_neg (by simp [hn.isUp_eq_false]), if_neg (by simp [hn.isHere_eq_false]),
        hn.encode, place_nil, List.reverse_cons, List.reverse_reverse]
      simp
    rw [hplace, ← folder, folder_concat, ← htext, String.ofList_toList, ← hpath]
    rfl
  · obtain ⟨c, rest, hname⟩ := List.exists_cons_of_ne_nil hn.toList_ne_nil
    rw [htext, hname] at hhead
    rw [hname]
    exact List.mem_of_mem_head? hhead

/-- The link out of a directory leads to where its names go on from, unless there are none. -/
theorem join?_up (hu : u.IsDirectory) {names : List (List Char)} (hnames : ∀ name ∈ names, '/' ∉ name)
    (hpath : u.path = folder names) : u.join? "../" = some { u with path := folder names.dropLast } := by
  rw [join?_relative hu Page.isStepChar_up (by decide) (by decide)]
  have hplace : place (directory u.path) (splitOn '/' "../".toList) = names.dropLast ++ [[]] := by
    rw [hpath, directory_folder hnames, show splitOn '/' "../".toList = ["..".toList, []] by decide, place,
      if_pos (by decide), place_nil, List.tail_reverse, List.reverse_reverse]
    simp
  rw [hplace]
  rfl

end

namespace IsDirectory

variable {u : Url} {name : String}

theorem withFolder (hu : u.IsDirectory) (names : List (List Char)) :
    IsDirectory { u with path := folder names } where
  web := hu.web
  host := hu.host
  opened := head?_folder names
  closed := getLast?_folder names
  query := hu.query
  fragment := hu.fragment

theorem append_nameSlash (hu : u.IsDirectory) (name : String) : (u.append (name ++ "/")).IsDirectory := by
  obtain ⟨names, hnames, hpath⟩ := hu.exists_folder
  have := hu.withFolder (names ++ [name.toList])
  rw [folder_concat, ← hpath] at this
  simpa [append] using this

theorem join?_up_append (hu : u.IsDirectory) (hn : Page.IsName name) :
    (u.append (name ++ "/")).join? "../" = some u := by
  obtain ⟨names, hnames, hpath⟩ := hu.exists_folder
  have hfree : ∀ piece ∈ names ++ [name.toList], '/' ∉ piece := by
    intro piece hpiece
    rcases List.mem_append.mp hpiece with hmem | hmem
    · exact hnames piece hmem
    · rw [List.mem_singleton.mp hmem]
      exact hn.not_mem (by decide)
  have hinner : (u.append (name ++ "/")).path = folder (names ++ [name.toList]) := by
    rw [folder_concat, ← hpath]
    simp [append]
  rw [join?_up (hu.append_nameSlash name) hfree hinner, List.dropLast_concat, ← hpath]
  rfl

/-- Out of a directory nothing is longer than the directory itself. -/
theorem exists_join?_up (hu : u.IsDirectory) :
    ∃ v rest, u.join? "../" = some v ∧ v.IsDirectory ∧ u = v.append rest := by
  obtain ⟨names, hnames, hpath⟩ := hu.exists_folder
  have hrest : ∃ rest, u.path = folder names.dropLast ++ rest := by
    rcases List.eq_nil_or_concat names with rfl | ⟨before, last, rfl⟩
    · exact ⟨"", by simp [hpath]⟩
    · exact ⟨_, by rw [hpath, List.concat_eq_append, folder_concat, List.dropLast_concat]⟩
  obtain ⟨rest, hrest⟩ := hrest
  refine ⟨_, rest, join?_up hu hnames hpath, hu.withFolder names.dropLast, ?_⟩
  rw [append, ← hrest]

end IsDirectory

/-! ## Roots -/

theorem scheme_of_atHost? {scheme : String} {cs : List Char} {u : Url} (h : atHost? scheme cs = some u) :
    u.scheme = scheme := by
  simp only [atHost?, Option.bind_eq_bind, Option.bind_eq_some_iff, Option.pure_def] at h
  obtain ⟨a, -, h⟩ := h
  split at h <;> (cases h; rfl)

theorem scheme_of_ofFile? {cs : List Char} {u : Url} (h : ofFile? cs = some u) : u.scheme = fileScheme := by
  simp only [ofFile?, Option.bind_eq_bind, Option.pure_def] at h
  split at h
  · cases h; rfl
  split at h
  · cases h; rfl
  obtain ⟨name, -, hname⟩ := Option.bind_eq_some_iff.mp h
  cases hname
  rfl

theorem scheme_of_afterScheme? {scheme : String} {cs : List Char} {u : Url}
    (h : afterScheme? scheme cs = some u) : u.scheme = scheme := by
  unfold afterScheme? at h
  split at h
  · rename_i hfile
    rw [beq_iff_eq] at hfile
    rw [hfile]
    exact scheme_of_ofFile? h
  · split at h
    · exact scheme_of_atHost? h
    · split at h
      · exact scheme_of_atHost? h
      · cases h; rfl
      · cases h; rfl

theorem exists_place_concat_nil (done pieces : List (List Char)) :
    ∃ names, place done (pieces ++ [[]]) = names ++ [[]] := by
  induction pieces generalizing done with
  | nil => exact ⟨_, place_nil done⟩
  | cons piece more ih =>
    obtain ⟨q, qs, hq⟩ :=
      List.exists_cons_of_ne_nil (List.append_ne_nil_of_right_ne_nil more (List.cons_ne_nil [] []))
    rw [List.cons_append, hq, place, ← hq]
    · split
      · exact ih _
      · split <;> exact ih _
    · simp

theorem cutOptional_eq_none {c : Char} {cs before : List Char} (h : cutOptional c cs = (before, none)) :
    before = cs := by
  unfold cutOptional at h
  split at h <;> cases h
  rfl

/-- What is read after the host and ends with a slash is the path of a directory. -/
theorem exists_withTail {scheme : String} {authority : Option String} {cs : List Char}
    (hclosed : Closed cs) (hquery : (withTail scheme authority [] cs).query = none)
    (hfragment : (withTail scheme authority [] cs).fragment = none) :
    ∃ names, (withTail scheme authority [] cs).path = folder names := by
  have htail : cutTail cs = (cs, none, none) := by
    rcases hf : cutOptional '#' cs with ⟨rest, fragment⟩
    rcases hq : cutOptional '?' rest with ⟨path, query⟩
    simp only [withTail, cutTail, hf, hq, Option.map_eq_none_iff] at hquery hfragment
    subst hquery hfragment
    obtain rfl := cutOptional_eq_none hf
    obtain rfl := cutOptional_eq_none hq
    simp only [cutTail, hf, hq]
  obtain ⟨before, hbefore⟩ := hclosed.exists_pieces (isSpecial scheme)
  obtain ⟨names, hnames⟩ := exists_place_concat_nil [] before
  refine ⟨names, ?_⟩
  simp only [withTail, htail, hbefore, hnames]
  rfl

theorem getLast?_cleaned (cs : List Char) : (cleaned (cs ++ ['/'])).getLast? = some '/' := by
  have hdrop : ∃ rest, (cs ++ ['/']).dropWhile isOuter = rest ++ ['/'] := by
    induction cs with
    | nil => exact ⟨[], List.dropWhile_cons_of_neg (by decide)⟩
    | cons c cs ih =>
      by_cases hc : isOuter c = true
      · rwa [List.cons_append, List.dropWhile_cons_of_pos hc]
      · exact ⟨c :: cs, List.dropWhile_cons_of_neg hc⟩
  obtain ⟨rest, hrest⟩ := hdrop
  rw [cleaned, hrest, List.reverse_append, List.reverse_singleton, List.singleton_append,
    List.dropWhile_cons_of_neg (by decide), List.reverse_cons, List.reverse_reverse, List.filter_append,
    List.filter_cons_of_pos (by decide), List.filter_nil, List.getLast?_concat]

theorem isSpecial_of_isWeb {u : Url} (h : u.isWeb = true) :
    isSpecial u.scheme = true ∧ (u.scheme == fileScheme) = false := by
  simp only [isWeb, Bool.or_eq_true, beq_iff_eq] at h
  rcases h with h | h <;> rw [h] <;> decide

/-- A URL of the web whose text ends with a slash is one of a directory, unless the slash is in its query or
fragment. -/
theorem IsDirectory.of_ofText? {s : String} {u : Url} (h : ofText? (s ++ "/") = some u) (hweb : u.isWeb = true)
    (hplain : u.plain = u) : u.IsDirectory := by
  simp only [ofText?, Option.bind_eq_bind, Option.bind_eq_some_iff, String.toList_append] at h
  obtain ⟨⟨scheme, rest⟩, hcut, hafter⟩ := h
  obtain rfl := scheme_of_afterScheme? hafter
  have hrest : Closed rest := by
    simp only [cutScheme?, Option.bind_eq_bind, Option.bind_eq_some_iff, Option.pure_def] at hcut
    obtain ⟨⟨before, after⟩, hat, hif⟩ := hcut
    obtain ⟨-, hpair⟩ := Option.ite_none_right_eq_some.mp hif
    obtain rfl : after = rest := congrArg Prod.snd (Option.some.inj hpair)
    have hwhole := (cutAt_eq_some hat).1
    refine Closed.of_suffix ⟨before ++ [':'], ?_⟩ (.inr (getLast?_cleaned s.toList))
    rw [List.append_assoc, List.singleton_append, ← hwhole]
    rfl
  obtain ⟨hspecial, hfile⟩ := isSpecial_of_isWeb hweb
  have hat : atHost? u.scheme (rest.dropWhile (isSlash true)) = some u := by
    simpa only [afterScheme?, hspecial, hfile, Bool.false_eq_true, ↓reduceIte] using hafter
  simp only [atHost?, Option.bind_eq_bind, Option.bind_eq_some_iff, Option.pure_def, hspecial,
    Bool.not_true, Bool.and_false, Bool.false_eq_true, ↓reduceIte, Option.some.injEq] at hat
  obtain ⟨a, -, hu⟩ := hat
  -- the path is read from the end of the text
  have hafterHost := Closed.of_suffix (List.dropWhile_suffix fun c => !endsAuthority true c)
    (Closed.of_suffix (List.dropWhile_suffix (isSlash true)) hrest)
  have hquery : u.query = none := by rw [← hplain]; rfl
  have hfragment : u.fragment = none := by rw [← hplain]; rfl
  obtain ⟨names, hpath⟩ : ∃ names, u.path = folder names := by
    rw [← hu]
    refine exists_withTail ?_ (by rw [hu]; exact hquery) (by rw [hu]; exact hfragment)
    split
    · exact hafterHost
    · exact Closed.of_suffix (List.drop_suffix 1 _) hafterHost
  exact ⟨hweb, by rw [← hu]; rfl, by rw [hpath]; exact head?_folder names,
    by rw [hpath]; exact getLast?_folder names, hquery, hfragment⟩

end Url

end Transclusion
