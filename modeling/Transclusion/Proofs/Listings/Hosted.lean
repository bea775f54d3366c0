import Transclusion.Proofs.Listings.Directories

/-!
# URLs of the web by their texts

What is read as a URL of the web has a host and a path from a slash on, and no part of it holds a sign that
begins another. So the text of such a URL spells its parts.

* `Url.Hosted` : the URLs of the web as they are read;
* `Url.Hosted.of_ofText?`, `Url.Hosted.of_join?` : texts and links give such URLs;
* `Url.Hosted.eq_of_text` : without query and fragment, they are given by their texts;
* `Url.Hosted.of_isPrefix` : what they begin with is such a URL.
-/

namespace Transclusion

open Text

namespace Url

/-! ## Signs -/

/-- The signs that begin a part of a URL behind its host. -/
def signs : List Char := ['/', '?', '#']

def Free (cs : List Char) : Prop := ∀ c ∈ cs, c ∉ signs

theorem Free.nil : Free [] := by simp [Free]

theorem Free.append {cs ds : List Char} (hc : Free cs) (hd : Free ds) : Free (cs ++ ds) := fun c hmem =>
  (List.mem_append.mp hmem).elim (hc c) (hd c)

theorem Free.cons {c : Char} {cs : List Char} (hc : c ∉ signs) (h : Free cs) : Free (c :: cs) :=
  List.forall_mem_cons.mpr ⟨hc, h⟩

theorem free_of_all {p : Char → Bool} {cs : List Char} (h : ∀ c ∈ cs, p c = true)
    (hsigns : signs.any p = false) : Free cs := fun c hc hsign =>
  List.any_eq_false.mp hsigns c hsign (h c hc)

/-! ### What is encoded -/

def byteChars : List Char := "%0123456789ABCDEF".toList

theorem digit_mem {n : Nat} (h : n < 16) : Percent.digit n ∈ byteChars := by
  have hall : ∀ n < 16, Percent.digit n ∈ byteChars := by decide
  exact hall n h

theorem mem_byte {b : UInt8} {c : Char} (h : c ∈ Percent.byte b) : c ∈ byteChars := by
  have hlow := digit_mem (Nat.mod_lt b.toNat (show 16 > 0 by decide))
  have hhigh := digit_mem (show b.toNat / 16 < 16 by have := b.toNat_lt; omega)
  rcases List.mem_cons.mp h with rfl | h
  · decide
  · rcases List.mem_cons.mp h with rfl | h
    · exact hhigh
    · rwa [List.mem_singleton.mp h]

theorem mem_encode {passes : Char → Bool} {cs : List Char} {c : Char} (h : c ∈ Percent.encode passes cs) :
    passes c = true ∨ c ∈ byteChars := by
  obtain ⟨d, -, hd⟩ := List.mem_flatMap.mp h
  split at hd
  · rename_i hpasses
    exact .inl (List.mem_singleton.mp hd ▸ hpasses)
  · obtain ⟨b, -, hb⟩ := List.mem_flatMap.mp hd
    exact .inr (mem_byte hb)

theorem not_mem_encode {passes : Char → Bool} {c : Char} (hpasses : passes c = false) (hc : c ∉ byteChars)
    (cs : List Char) : c ∉ Percent.encode passes cs := fun h =>
  (mem_encode h).elim (fun h => Bool.false_ne_true (hpasses.symm.trans h)) hc

/-! ### Users, hosts and ports -/

theorem free_encode_inUser (cs : List Char) : Free (Percent.encode Percent.inUser cs) := by
  refine free_of_all (p := fun c => Percent.inUser c || byteChars.contains c) (fun c hc => ?_) (by decide)
  rw [Bool.or_eq_true, List.contains_iff_mem]
  exact mem_encode hc

theorem free_userText (cs : List Char) : Free (userText cs) := by
  unfold userText
  simp only
  split
  · exact Free.nil
  · refine ((free_encode_inUser _).append ?_).append (Free.cons (by decide) Free.nil)
    split
    · exact Free.nil
    · exact Free.cons (by decide) (free_encode_inUser _)

theorem free_toString (n : Nat) : Free (toString n).toList := by
  refine free_of_all (p := Char.isDigit) (fun c hc => ?_) (by decide)
  rw [show (toString n).toList = Nat.toDigits 10 n from Nat.toList_repr] at hc
  exact Nat.isDigit_of_mem_toDigits (by decide) (by decide) hc

theorem free_port? {standard : Option Nat} {cs port : List Char} (h : Host.port? standard cs = some port) :
    Free port := by
  simp only [Host.port?, Option.pure_def, Option.bind_eq_bind] at h
  split at h
  · cases h
    exact Free.nil
  · obtain ⟨n, -, h⟩ := Option.bind_eq_some_iff.mp h
    split at h
    · cases h
    · split at h
      · cases h
        exact Free.nil
      · cases h
        exact Free.cons (by decide) (free_toString n)

theorem hexDigit_not_mem_signs (d : Nat) : Host.hexDigit d ∉ signs := by
  have hdigits : ∀ d < 16, Host.hexDigit d ∉ signs := by decide +kernel
  by_cases hd : d < 16
  · exact hdigits d hd
  · rw [Host.hexDigit, List.getD_eq_getElem?_getD, List.getElem?_eq_none (Nat.not_lt.mp hd)]
    decide

theorem free_groups (gs : List Nat) : Free (joinWith ':' (gs.map Host.groupText)) := by
  intro c hc
  rcases mem_joinWith hc with rfl | ⟨piece, hpiece, hc⟩
  · decide
  · obtain ⟨n, -, rfl⟩ := List.mem_map.mp hpiece
    obtain ⟨d, -, rfl⟩ := List.mem_map.mp hc
    exact hexDigit_not_mem_signs d

theorem free_groupsText (gs : List Nat) : Free (Host.groupsText gs) := by
  unfold Host.groupsText
  dsimp only
  split
  · exact free_groups gs
  · exact ((free_groups _).append (Free.cons (by decide) (Free.cons (by decide) Free.nil))).append (free_groups _)

theorem free_bracketed? {cs host : List Char} (h : Host.bracketed? cs = some host) : Free host := by
  simp only [Host.bracketed?, Option.pure_def, Option.bind_eq_bind, Option.bind_eq_some_iff] at h
  obtain ⟨inner, -, ⟨address, rest⟩, -, h⟩ := h
  obtain ⟨-, h⟩ := Option.ite_none_right_eq_some.mp h
  obtain ⟨gs, -, h⟩ := Option.bind_eq_some_iff.mp h
  cases h
  exact (Free.cons (by decide) (free_groupsText gs)).append (Free.cons (by decide) Free.nil)

theorem free_address? {labels : List (List Char)} {host : List Char} (h : Host.address? labels = some host) :
    Free host := by
  simp only [Host.address?, Option.pure_def, Option.bind_eq_bind, Option.bind_eq_some_iff] at h
  obtain ⟨parts, -, last, -, h⟩ := h
  obtain ⟨-, h⟩ := Option.ite_none_left_eq_some.mp h
  cases h
  intro c hc
  rcases mem_joinWith hc with rfl | ⟨piece, hpiece, hc⟩
  · decide
  · obtain ⟨n, -, rfl⟩ := List.mem_map.mp hpiece
    exact free_toString n c hc

theorem free_domain? {cs host : List Char} (h : Host.domain? cs = some host) : Free host := by
  simp only [Host.domain?, Option.pure_def, Option.bind_eq_bind, Option.bind_eq_some_iff] at h
  obtain ⟨decoded, -, h⟩ := h
  obtain ⟨hnot, h⟩ := Option.ite_none_left_eq_some.mp h
  split at h
  · exact free_address? h
  · cases h
    rw [Bool.or_eq_true, not_or, Bool.not_eq_true, Bool.not_eq_true, List.any_eq_false] at hnot
    exact free_of_all (p := fun c => !Host.isForbidden c) (fun c hc => by simpa using hnot.2 c hc) (by decide)

theorem free_authority? {scheme authority : String} {cs : List Char} (hspecial : isSpecial scheme = true)
    (h : authority? scheme cs = some authority) : Free authority.toList := by
  simp only [authority?, Option.pure_def, Option.bind_eq_bind] at h
  obtain ⟨-, h⟩ := Option.ite_none_left_eq_some.mp h
  simp only [Option.bind_eq_some_iff, Option.some.injEq] at h
  obtain ⟨host, hhost, port, hport, rfl⟩ := h
  rw [String.toList_ofList]
  refine ((free_userText _).append ?_).append (free_port? hport)
  simp only [host?, hspecial, if_true] at hhost
  split at hhost
  · exact free_bracketed? hhost
  · exact free_domain? hhost

/-! ## Paths -/

/-- No query and no fragment begins here. -/
def Pathlike (cs : List Char) : Prop := '?' ∉ cs ∧ '#' ∉ cs

theorem Free.pathlike {cs : List Char} (h : Free cs) : Pathlike cs :=
  ⟨fun hmem => h _ hmem (by decide), fun hmem => h _ hmem (by decide)⟩

theorem pathlike_encode (cs : List Char) : Pathlike (Percent.encode Percent.inPath cs) :=
  ⟨not_mem_encode (by decide) (by decide) cs, not_mem_encode (by decide) (by decide) cs⟩

theorem Pathlike.append {cs ds : List Char} (hc : Pathlike cs) (hd : Pathlike ds) : Pathlike (cs ++ ds) := by
  simp only [Pathlike, List.mem_append, not_or]
  exact ⟨⟨hc.1, hd.1⟩, hc.2, hd.2⟩

theorem pathlike_joinWith {segments : List (List Char)} (h : ∀ s ∈ segments, Pathlike s) :
    Pathlike (joinWith '/' segments) := by
  constructor
  all_goals
    intro hmem
    rcases mem_joinWith hmem with heq | ⟨s, hs, hmem⟩
    · exact absurd heq (by decide)
  · exact (h s hs).1 hmem
  · exact (h s hs).2 hmem

theorem pathlike_place {done pieces : List (List Char)} (h : ∀ s ∈ done, Pathlike s) :
    ∀ s ∈ place done pieces, Pathlike s := by
  have hnil : Pathlike [] := by simp [Pathlike]
  have htail : ∀ {l : List (List Char)}, (∀ s ∈ l, Pathlike s) → ∀ s ∈ l.tail, Pathlike s :=
    fun hl s hs => hl s (List.mem_of_mem_tail hs)
  have hlast : ∀ {last : List Char} {l : List (List Char)}, Pathlike last → (∀ s ∈ l, Pathlike s) →
      ∀ s ∈ (last :: l).reverse, Pathlike s :=
    fun hlast hl s hs => List.forall_mem_cons.mpr ⟨hlast, hl⟩ s (List.mem_reverse.mp hs)
  fun_induction place done pieces with
  | case1 done => exact fun s hs => h s (List.mem_reverse.mp hs)
  | case2 done last hup => exact hlast hnil (htail h)
  | case3 done last hup hhere => exact hlast hnil h
  | case4 done last hup hhere => exact hlast (pathlike_encode last) h
  | case5 done s rest hrest hup ih => exact ih (htail h)
  | case6 done s rest hrest hup hhere ih => exact ih h
  | case7 done s rest hrest hup hhere ih => exact ih (List.forall_mem_cons.mpr ⟨pathlike_encode s, h⟩)

theorem pathlike_directory {path : String} (h : Pathlike path.toList) :
    ∀ s ∈ directory path, Pathlike s := by
  intro s hs
  have hmem : s ∈ splitOn '/' (path.toList.drop 1) := List.mem_reverse.mp (List.mem_of_mem_tail hs)
  have hsub : ∀ c ∈ s, c ∈ path.toList := fun c hc => List.mem_of_mem_drop (mem_of_mem_splitOn hmem hc)
  exact ⟨fun hc => h.1 (hsub _ hc), fun hc => h.2 (hsub _ hc)⟩

/-! ## URLs of the web -/

/-- A URL of the web as it is read. -/
structure Hosted (u : Url) : Prop where
  web : u.isWeb = true
  authority : ∃ a, u.authority = some a ∧ Free a.toList
  opened : u.path.toList.head? = some '/'
  path : Pathlike u.path.toList

theorem hosted_withTail {scheme authority : String} {start : List (List Char)} {cs : List Char}
    (hweb : scheme = "http" ∨ scheme = "https") (hfree : Free authority.toList)
    (hstart : ∀ s ∈ start, Pathlike s) : (withTail scheme (some authority) start cs).Hosted where
  web := by rcases hweb with rfl | rfl <;> rfl
  authority := ⟨authority, rfl, hfree⟩
  opened := by simp [withTail, rooted]
  path := by
    simp only [withTail, rooted, String.toList_ofList]
    have hslash : Pathlike ['/'] := by simp [Pathlike]
    exact hslash.append (pathlike_joinWith (pathlike_place hstart))

section
variable {u v page : Url} {scheme link : String} {cs : List Char}

theorem eq_or_eq_of_isWeb (h : u.isWeb = true) : u.scheme = "http" ∨ u.scheme = "https" := by
  simpa [isWeb] using h

theorem hosted_of_atHost? (hweb : scheme = "http" ∨ scheme = "https") (h : atHost? scheme cs = some u) :
    u.Hosted := by
  have hspecial : isSpecial scheme = true := by rcases hweb with rfl | rfl <;> decide
  simp only [atHost?, Option.bind_eq_bind, Option.bind_eq_some_iff, Option.pure_def, hspecial, Bool.not_true,
    Bool.and_false, Bool.false_eq_true, ↓reduceIte, Option.some.injEq] at h
  obtain ⟨a, ha, rfl⟩ := h
  exact hosted_withTail hweb (free_authority? hspecial ha) (by simp)

theorem hosted_of_afterScheme? (h : afterScheme? scheme cs = some u) (hweb : u.isWeb = true) : u.Hosted := by
  obtain ⟨hspecial, hfile⟩ := isSpecial_of_isWeb hweb
  obtain rfl := scheme_of_afterScheme? h
  simp only [afterScheme?, hspecial, hfile, Bool.false_eq_true, ↓reduceIte] at h
  exact hosted_of_atHost? (eq_or_eq_of_isWeb hweb) h

theorem Hosted.of_ofText? {s : String} (h : ofText? s = some u) (hweb : u.isWeb = true) : u.Hosted := by
  simp only [ofText?, Option.bind_eq_bind, Option.bind_eq_some_iff] at h
  obtain ⟨⟨scheme, rest⟩, -, hafter⟩ := h
  exact hosted_of_afterScheme? hafter hweb

theorem scheme_of_relative? (h : relative? page cs = some u) : u.scheme = page.scheme := by
  unfold relative? at h
  simp only at h
  split at h
  · cases h
    rfl
  · split at h
    · split at h
      · exact scheme_of_atHost? h
      · cases h
        rfl
    · split at h
      · cases h
        rfl
      · split at h <;> (cases h; rfl)

theorem Hosted.of_relative? (hpage : page.Hosted) (h : relative? page cs = some u) : u.Hosted := by
  have hweb := eq_or_eq_of_isWeb hpage.web
  obtain ⟨a, ha, hfree⟩ := hpage.authority
  unfold relative? at h
  simp only at h
  split at h
  · cases h
    exact ⟨hpage.web, hpage.authority, hpage.opened, hpage.path⟩
  · split at h
    · split at h
      · exact hosted_of_atHost? hweb h
      · cases h
        rw [ha]
        exact hosted_withTail hweb hfree (by simp)
    · split at h
      · cases h
        exact ⟨hpage.web, hpage.authority, hpage.opened, hpage.path⟩
      · split at h
        · cases h
          exact ⟨hpage.web, hpage.authority, hpage.opened, hpage.path⟩
        · cases h
          rw [ha]
          exact hosted_withTail hweb hfree (pathlike_directory hpage.path)

/-- A link into the web gives such a URL, on a page of the web and on any other. -/
theorem Hosted.of_join? (hpage : page.isWeb = true → page.Hosted) (h : page.join? link = some u)
    (hweb : u.isWeb = true) : u.Hosted := by
  have hrelative : ∀ {cs}, relative? page cs = some u → u.Hosted := by
    intro cs h
    have hpageWeb : page.isWeb = true := by rw [isWeb, ← scheme_of_relative? h, ← isWeb, hweb]
    exact (hpage hpageWeb).of_relative? h
  unfold join? at h
  simp only at h
  split at h
  · split at h
    · exact hrelative h
    · exact hosted_of_afterScheme? h hweb
  · exact hrelative h

/-! ## Their texts -/

theorem query_eq_none (h : u.plain = u) : u.query = none := congrArg Url.query h.symm

theorem fragment_eq_none (h : u.plain = u) : u.fragment = none := congrArg Url.fragment h.symm

theorem plain_eq_self (hquery : u.query = none) (hfragment : u.fragment = none) : u.plain = u := by
  obtain ⟨scheme, authority, path, query, fragment⟩ := u
  obtain rfl : query = none := hquery
  obtain rfl : fragment = none := hfragment
  rfl

theorem toList_text (u : Url) : ∃ rest, u.text.toList = u.scheme.toList ++ ':' :: rest :=
  ⟨_, by simp only [text, String.toList_append, List.append_assoc]; rfl⟩

theorem Hosted.toList_text (h : u.Hosted) (hplain : u.plain = u) :
    ∃ a, u.authority = some a ∧ Free a.toList ∧
      u.text.toList = u.scheme.toList ++ ':' :: '/' :: '/' :: (a.toList ++ u.path.toList) := by
  obtain ⟨a, ha, hfree⟩ := h.authority
  refine ⟨a, ha, hfree, ?_⟩
  simp [text, ha, query_eq_none hplain, fragment_eq_none hplain]

theorem colon_not_mem (h : u.isWeb = true) : ':' ∉ u.scheme.toList := by
  rcases eq_or_eq_of_isWeb h with heq | heq <;> rw [heq] <;> decide

theorem Hosted.eq_of_text (hu : u.Hosted) (hv : v.Hosted) (huplain : u.plain = u) (hvplain : v.plain = v)
    (h : u.text = v.text) : u = v := by
  obtain ⟨a, ha, hafree, hatext⟩ := hu.toList_text huplain
  obtain ⟨b, hb, hbfree, hbtext⟩ := hv.toList_text hvplain
  obtain ⟨p, hp⟩ := List.head?_eq_some_iff.mp hu.opened
  obtain ⟨q, hq⟩ := List.head?_eq_some_iff.mp hv.opened
  -- the texts are cut at the same places
  have hcolon := congrArg (cutAt ':') (congrArg String.toList h)
  rw [hatext, hbtext, cutAt_append_cons (colon_not_mem hu.web), cutAt_append_cons (colon_not_mem hv.web)] at hcolon
  obtain ⟨hscheme, hrest⟩ := Prod.mk.inj (Option.some.inj hcolon)
  have hslash := congrArg (cutAt '/') (List.cons.inj (List.cons.inj hrest).2).2
  rw [hp, hq, cutAt_append_cons fun hmem => hafree _ hmem (by decide),
    cutAt_append_cons fun hmem => hbfree _ hmem (by decide)] at hslash
  obtain ⟨hauthority, hpath⟩ := Prod.mk.inj (Option.some.inj hslash)
  obtain ⟨scheme, authority, path, query, fragment⟩ := u
  obtain ⟨scheme', authority', path', query', fragment'⟩ := v
  obtain rfl : scheme = scheme' := String.toList_inj.mp hscheme
  obtain rfl : path = path' := String.toList_inj.mp (by rw [hp, hq, hpath])
  obtain rfl : a = b := String.toList_inj.mp hauthority
  obtain rfl : authority = authority' := ha.trans hb.symm
  obtain rfl : query = query' := (query_eq_none huplain).trans (query_eq_none hvplain).symm
  obtain rfl : fragment = fragment' := (fragment_eq_none huplain).trans (fragment_eq_none hvplain).symm
  rfl

theorem Hosted.pathlike_text (h : u.Hosted) (hplain : u.plain = u) : Pathlike u.text.toList := by
  obtain ⟨a, -, hfree, htext⟩ := h.toList_text hplain
  have hscheme : Pathlike u.scheme.toList := by
    rcases eq_or_eq_of_isWeb h.web with heq | heq <;> rw [heq] <;> exact ⟨by decide, by decide⟩
  have hsigns : Pathlike [':', '/', '/'] := ⟨by decide, by decide⟩
  rw [htext]
  exact hscheme.append (hsigns.append (hfree.pathlike.append h.path))

/-! ## Roots -/

theorem toLower_of_isSchemeChar {c : Char} (h : isSchemeChar c = true) : c.toLower ≠ ':' := by
  have hall : ∀ n < 128, isSchemeChar (Char.ofNat n) = true → (Char.ofNat n).toLower ≠ ':' := by decide +kernel
  have hbound : c.toNat < 128 := by
    by_cases hplus : c = '+'
    · rw [hplus]
      decide
    · refine Page.toNat_of_isNameChar ?_
      simp only [isSchemeChar, Bool.or_eq_true, beq_iff_eq, hplus, or_false] at h
      simp only [Page.isNameChar, Bool.or_eq_true, beq_iff_eq]
      rcases h with (h | h) | h
      · exact .inl (.inl (.inl h))
      · exact .inl (.inr h)
      · exact .inr h
  have := hall c.toNat hbound
  rw [Char.ofNat_toNat] at this
  exact this h

theorem colon_not_mem_of_ofText? {s : String} (h : ofText? s = some u) : ':' ∉ u.scheme.toList := by
  simp only [ofText?, Option.bind_eq_bind, Option.bind_eq_some_iff] at h
  obtain ⟨⟨scheme, rest⟩, hcut, hafter⟩ := h
  simp only [cutScheme?, Option.bind_eq_bind, Option.bind_eq_some_iff, Option.pure_def] at hcut
  obtain ⟨⟨before, after⟩, -, hif⟩ := hcut
  obtain ⟨hchars, hpair⟩ := Option.ite_none_right_eq_some.mp hif
  obtain ⟨rfl, -⟩ := Prod.mk.inj (Option.some.inj hpair)
  rw [scheme_of_afterScheme? hafter, String.toList_ofList]
  intro hmem
  obtain ⟨c, hc, heq⟩ := List.mem_map.mp hmem
  rw [Bool.and_eq_true, List.all_eq_true] at hchars
  exact toLower_of_isSchemeChar (hchars.2 c hc) heq

/-- Whatever has URLs of the web below it is one, without query and fragment. -/
theorem Hosted.of_isPrefix {root : Url} {s : String} (hroot : ofText? s = some root) (hu : u.Hosted)
    (hplain : u.plain = u) (h : root.text.toList <+: u.text.toList) : root.Hosted ∧ root.plain = root := by
  obtain ⟨more, hmore⟩ := h
  obtain ⟨rest, hrest⟩ := Url.toList_text root
  obtain ⟨rest', hrest'⟩ := Url.toList_text u
  have hcolon := congrArg (cutAt ':') hmore
  rw [hrest, hrest', List.append_assoc, List.cons_append, cutAt_append_cons (colon_not_mem_of_ofText? hroot),
    cutAt_append_cons (colon_not_mem hu.web)] at hcolon
  have hscheme := String.toList_inj.mp (Prod.mk.inj (Option.some.inj hcolon)).1
  have hweb : root.isWeb = true := by rw [isWeb, hscheme, ← isWeb, hu.web]
  refine ⟨.of_ofText? hroot hweb, ?_⟩
  -- a query or a fragment would be in the text of the other
  have hclean := hu.pathlike_text hplain
  rw [← hmore] at hclean
  have hquery : root.query = none := by
    refine Option.eq_none_iff_forall_ne_some.mpr fun q hq => hclean.1 ?_
    simp [text, hq]
  have hfragment : root.fragment = none := by
    refine Option.eq_none_iff_forall_ne_some.mpr fun f hf => hclean.2 ?_
    simp [text, hf]
  exact plain_eq_self hquery hfragment

end

end Url
end Transclusion
