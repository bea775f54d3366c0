import Transclusion.Disk.Tree
import Transclusion.Http.Crawl
import Transclusion.Proofs.Listings.Directories

/-!
# Links to the entries of a directory

* `FileTree.Servable` : trees whose names are links as they stand;
* `Page.Indexes` : the pages that list a directory; `Page.follow?_href` : where their links lead;
* `Crawl.mem_directories`, `Crawl.mem_files` : what is found on such a page.
-/

namespace Transclusion

/-! ## Following -/

namespace Page

theorem follow?_of_join? {page u : Url} {link : String} (hchars : ∀ c ∈ link.toList, isStepChar c = true)
    (hjoin : page.join? link = some u) (hu : u.isWeb = true) (hplain : u.plain = u) :
    follow? page link = some u := by
  have hnot : ∀ {c}, c ∈ ['\\', ':', '?', '#'] → c ∉ link.toList := fun hc hmem =>
    (of_isStepChar (hchars _ hmem)).1 hc
  have haside : isAside link = false := by
    refine Bool.eq_false_iff.mpr fun h => ?_
    simp only [isAside, Bool.or_eq_true, beq_iff_eq] at h
    rcases h with (h | h) | h
    · exact hnot (c := '#') (by decide) (List.mem_of_mem_head? h)
    · exact hnot (c := '?') (by decide) (List.mem_of_mem_head? h)
    · exact hnot (c := ':') (by decide) ((List.isPrefixOf_iff_prefix.mp h).subset (by decide))
  simp [follow?, haside, hjoin, hu, hplain]

end Page

/-! ## Pages of directories -/

/-- A tree of files and directories whose names are links as they stand. -/
inductive FileTree.Servable : FileTree → Prop where
  | file (bytes : ByteArray) : Servable (.file bytes)
  | dir {entries : List (String × FileTree)} (distinct : (entries.map (·.1)).Nodup)
      (named : ∀ e ∈ entries, Page.IsName e.1) (below : ∀ e ∈ entries, Servable e.2) : Servable (.dir entries)

namespace Page

def href (name : String) : FileTree → String
  | .dir _ => name ++ "/"
  | _ => name

/-- A page links to each entry of a directory, and else only to the directory around it and to itself
in another order. -/
structure Indexes (body : String) (entries : List (String × FileTree)) : Prop where
  all : ∀ e ∈ entries, href e.1 e.2 ∈ links body
  only : ∀ link ∈ links body,
    (∃ e ∈ entries, link = href e.1 e.2) ∨ link = "../" ∨ link.toList.head? = some '?'

section
variable {page : Url} {name : String}

theorem follow?_name (hpage : page.IsDirectory) (hn : IsName name) :
    follow? page name = some (page.append name) :=
  follow?_of_join? (fun _ hc => hn.isStepChar hc) (Url.join?_name hpage hn) hpage.web
    (by simp [Url.plain, Url.append, hpage.query, hpage.fragment])

theorem follow?_nameSlash (hpage : page.IsDirectory) (hn : IsName name) :
    follow? page (name ++ "/") = some (page.append (name ++ "/")) :=
  follow?_of_join? hn.isStepChar_slash (Url.join?_nameSlash hpage hn) hpage.web
    (hpage.append_nameSlash name).plain

theorem of_follow?_up {u : Url} (hpage : page.IsDirectory) (h : follow? page "../" = some u) :
    u.IsDirectory ∧ ∃ rest, page = u.append rest := by
  obtain ⟨v, rest, hjoin, hv, hrest⟩ := hpage.exists_join?_up
  rw [follow?_of_join? isStepChar_up hjoin hv.web hv.plain] at h
  cases h
  exact ⟨hv, rest, hrest⟩

theorem follow?_up_append (hpage : page.IsDirectory) (hn : IsName name) :
    follow? (page.append (name ++ "/")) "../" = some page :=
  follow?_of_join? isStepChar_up (hpage.join?_up_append hn) hpage.web hpage.plain

theorem follow?_href (hpage : page.IsDirectory) (hn : IsName name) (t : FileTree) :
    follow? page (href name t) = some (page.append (href name t)) := by
  cases t with
  | file => exact follow?_name hpage hn
  | link => exact follow?_name hpage hn
  | dir => exact follow?_nameSlash hpage hn

theorem href_ne_empty (hn : IsName name) (t : FileTree) : href name t ≠ "" := by
  cases t <;> simp [href, hn.1]

theorem follow?_of_head {link : String} (h : link.toList.head? = some '?') : follow? page link = none := by
  simp [follow?, isAside, h]

end

end Page

namespace Crawl

open Page (IsName href links follow? Indexes)

section
variable {root page u : Url} {body : String} {entries : List (String × FileTree)}

theorem isBelow_append (hpage : page.IsDirectory) (hroot : root.text.toList <+: page.text.toList) {s : String}
    (hs : s ≠ "") : isBelow root page (page.append s) = true := by
  simp [isBelow, Url.text_append hpage, hs, hroot.trans (List.prefix_append _ _)]

/-- The page of a directory leads to its entries, and perhaps to the directory around it. -/
theorem mem_targets (hindex : Indexes body entries) (hpage : page.IsDirectory)
    (hroot : root.text.toList <+: page.text.toList) (hnames : ∀ e ∈ entries, IsName e.1) :
    u ∈ targets root page body ↔ (∃ e ∈ entries, u = page.append (href e.1 e.2)) ∨
      ("../" ∈ links body ∧ follow? page "../" = some u ∧ isBelow root page u = true) := by
  have hne : ∀ e ∈ entries, href e.1 e.2 ≠ "" := fun e he => Page.href_ne_empty (hnames e he) e.2
  simp only [targets, List.mem_filter, List.mem_filterMap]
  constructor
  · rintro ⟨⟨link, hlink, hfollow⟩, hbelow⟩
    rcases hindex.only link hlink with ⟨e, he, rfl⟩ | rfl | hhead
    · rw [Page.follow?_href hpage (hnames e he)] at hfollow
      exact .inl ⟨e, he, (Option.some.inj hfollow).symm⟩
    · exact .inr ⟨hlink, hfollow, hbelow⟩
    · rw [Page.follow?_of_head hhead] at hfollow
      cases hfollow
  · rintro (⟨e, he, rfl⟩ | ⟨hlink, hfollow, hbelow⟩)
    · exact ⟨⟨_, hindex.all e he, Page.follow?_href hpage (hnames e he) _⟩,
        isBelow_append hpage hroot (hne e he)⟩
    · exact ⟨⟨_, hlink, hfollow⟩, hbelow⟩

theorem isDirectory_nameSlash (page : Url) (name : String) : isDirectory (page.append (name ++ "/")) = true := by
  simp [isDirectory, Url.append]

theorem isDirectory_name (page : Url) {name : String} (hn : IsName name) :
    isDirectory (page.append name) = false := by
  obtain ⟨init, c, hname⟩ := (List.eq_nil_or_concat name.toList).resolve_left hn.toList_ne_nil
  have hc : c ≠ '/' := fun heq => hn.not_mem (c := '/') (by decide) (by simp [hname, heq])
  simp [isDirectory, Url.append, hname, hc]

theorem isDirectory_of_follow?_up (hpage : page.IsDirectory) (h : follow? page "../" = some u) :
    isDirectory u = true := by
  simp [isDirectory, (Page.of_follow?_up hpage h).1.closed]

theorem mem_files (htree : (FileTree.dir entries).Servable) (hindex : Indexes body entries)
    (hpage : page.IsDirectory) (hroot : root.text.toList <+: page.text.toList) {s : String} :
    s ∈ files root page body ↔ ∃ name bytes, (name, .file bytes) ∈ entries ∧ s = page.text ++ name := by
  cases htree with | dir _ hnames hbelow =>
  simp only [files, List.mem_map, List.mem_filter, mem_targets hindex hpage hroot hnames,
    Bool.not_eq_true', ← Bool.not_eq_true]
  constructor
  · rintro ⟨u, ⟨⟨⟨name, t⟩, he, rfl⟩ | hup, hdir⟩, rfl⟩
    · cases hbelow _ he with
      | file bytes => exact ⟨name, bytes, he, Url.text_append hpage name⟩
      | dir => exact absurd (isDirectory_nameSlash page name) hdir
    · exact absurd (isDirectory_of_follow?_up hpage hup.2.1) hdir
  · rintro ⟨name, bytes, he, rfl⟩
    refine ⟨page.append name, ⟨.inl ⟨_, he, rfl⟩, ?_⟩, Url.text_append hpage name⟩
    simp [isDirectory_name page (hnames _ he)]

end

end Crawl
end Transclusion
