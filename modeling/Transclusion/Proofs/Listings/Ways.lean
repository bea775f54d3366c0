import Transclusion.Proofs.Listings.Hosted
import Transclusion.Proofs.Listings.Reach
import Transclusion.Proofs.Listings.Requests

/-!
# What a crawl finds

A page may be come to in many ways, and is visited the first time only. Pages below it are then as far away as
the way that came first is long, so that a crawl may miss what a shorter way leads to. It finds everything on the
pages that no way makes too long.

* `Crawl.Way.visited_or_long` : a page is visited, or some way to it is too long;
* `Crawl.crawl_finds` : what is found on pages that are near in all ways, and what is found at all;
* `Http.glob_links_below` : how far down a listing with a depth limit finds something.
-/

namespace Transclusion

namespace Crawl

section
variable {fetch : Url → Run Id String} {root page page' u : Url} {before before' log : List Url} {links depth : Nat}
  {known : Known} {s body : String}

/-! ## Pages by their texts -/

theorem hosted_of_follow? {link : String} (hpage : page.isWeb = true → page.Hosted)
    (h : Page.follow? page link = some u) : u.Hosted := by
  unfold Page.follow? at h
  split at h
  · cases h
  · split at h
    · rename_i v hv
      split at h
      · rename_i hweb
        cases h
        have hhosted := Url.Hosted.of_join? hpage hv hweb
        exact ⟨hhosted.web, hhosted.authority, hhosted.opened, hhosted.path⟩
      · cases h
    · cases h

/-- Below a root that is read from a text everything is in the web, and so is the root then. -/
theorem Way.hosted (hroot : Url.ofText? s = some root) (h : Way fetch root page before) :
    page = root ∨ (page.Hosted ∧ page.plain = page) ∧ root.Hosted ∧ root.plain = root := by
  induction h with
  | root => exact .inl rfl
  | @on page u before body way fetched link fresh ih =>
    obtain ⟨⟨text, -, hfollow⟩, hbelow⟩ := mem_targets_iff.mp (mem_targets_of_mem_directories link).1
    obtain ⟨-, hquery, hfragment⟩ := of_follow? hfollow
    have hplain := Url.plain_eq_self hquery hfragment
    have hpage : page.isWeb = true → page.Hosted := by
      rcases ih with rfl | ⟨⟨hhosted, -⟩, -⟩
      · exact Url.Hosted.of_ofText? hroot
      · exact fun _ => hhosted
    have hhosted := hosted_of_follow? hpage hfollow
    exact .inr ⟨⟨hhosted, hplain⟩, hhosted.of_isPrefix hroot hplain (prefix_of_isBelow hbelow)⟩

theorem Way.eq_of_text (hroot : Url.ofText? s = some root) (h : Way fetch root page before)
    (h' : Way fetch root page' before') (htext : page.text = page'.text) : page = page' := by
  rcases h.hosted hroot with rfl | ⟨⟨hhosted, hplain⟩, hroot₁, hroot₂⟩
  · rcases h'.hosted hroot with rfl | ⟨⟨hhosted', hplain'⟩, hroot₁, hroot₂⟩
    · rfl
    · exact hroot₁.eq_of_text hhosted' hroot₂ hplain' htext
  · rcases h'.hosted hroot with rfl | ⟨⟨hhosted', hplain'⟩, -, -⟩
    · exact hhosted.eq_of_text hroot₁ hplain hroot₂ htext
    · exact hhosted.eq_of_text hhosted' hplain hplain' htext

/-! ## What is visited -/

def AllSettled (fetch : Url → Run Id String) (root : Url) (links : Nat) (log : List Url) (visited : List String) :
    Prop :=
  ∀ u ∈ log, ∃ body before, Settled fetch root links visited u body before

/-- A page that was not visited can be come to in a way that is too long: where a way leaves the visited pages,
the way to the last of these was as long as it may be. -/
theorem Way.visited_or_long (hroot : Url.ofText? s = some root) (hvisited : known.visited = (log.map Url.text).reverse)
    (hfirst : root ∈ log) (hsettled : AllSettled fetch root links log known.visited)
    (h : Way fetch root page before) : page.text ∈ known.visited ∨ ∃ other, Way fetch root page other ∧
      links < other.length ∧ ∀ v ∈ other, v.text ∈ known.visited ∨ v.text ∈ before.map Url.text := by
  have hmem : ∀ {t}, t ∈ known.visited ↔ ∃ v ∈ log, v.text = t := by simp [hvisited]
  induction h with
  | root => exact .inl (hmem.mpr ⟨root, hfirst, rfl⟩)
  | @on page u before body way fetched link fresh ih =>
    by_cases hu : u.text ∈ known.visited
    · exact .inl hu
    -- in either case the way to the page goes on to the directory
    suffices hway : ∃ other, Way fetch root page other ∧ links ≤ other.length ∧
        ∀ v ∈ page :: other, v.text ∈ known.visited ∨ v.text ∈ (page :: before).map Url.text by
      obtain ⟨other, hother, hlinks, hpages⟩ := hway
      have hfresh : u.text ∉ (page :: other).map Url.text := by
        intro hmem
        obtain ⟨v, hv, heq⟩ := List.mem_map.mp hmem
        rcases hpages v hv with hold | hold
        · exact hu (heq ▸ hold)
        · exact fresh (heq ▸ hold)
      exact .inr ⟨page :: other, hother.on fetched link hfresh, Nat.lt_succ_of_le hlinks, hpages⟩
    rcases ih with hpage | ⟨other, hother, hlinks, hpages⟩
    · obtain ⟨v, hv, htext⟩ := hmem.mp hpage
      obtain ⟨body', other, hv⟩ := hsettled v hv
      obtain rfl := hv.way.eq_of_text hroot way htext
      obtain rfl := Run.pure_inj.mp (hv.fetched.symm.trans fetched)
      refine ⟨other, hv.way, Nat.not_lt.mp fun hroom => hu (hv.directories hroom u link), ?_⟩
      exact List.forall_mem_cons.mpr ⟨.inl hpage, fun w hw => .inl (hv.along w hw)⟩
    · refine ⟨other, hother, hlinks.le, List.forall_mem_cons.mpr ⟨.inr List.mem_cons_self, fun v hv => ?_⟩⟩
      exact (hpages v hv).imp_right (List.mem_cons_of_mem _)

/-! ## What is found -/

/-- A file is linked to on a page that some way leads to over so many links. -/
def Linked (fetch : Url → Run Id String) (root : Url) (links : Nat) (file : String) : Prop :=
  ∃ page before body u, Way fetch root page before ∧ before.length ≤ links ∧ fetch page = pure body ∧
    u ∈ targets root page body ∧ isDirectory u = false ∧ u.text = file

theorem Crawled.linked {found : List String} (h : Crawled fetch root depth log (.ok found)) {file : String}
    (hfile : file ∈ found) : Linked fetch root (depth - 1) file := by
  cases h with
  | missing => cases hfile
  | found record =>
    obtain ⟨page, hpage, body, hbody, hlinked⟩ := (record.files file).mp (mem_ascending.mp hfile)
    obtain ⟨before, hway, hlength⟩ := record.ways page hpage
    obtain ⟨u, hu, hdirectory, htext⟩ := mem_files_iff.mp hlinked
    exact ⟨page, before, body, u, hway, hlength, hbody, hu, hdirectory, htext⟩

end

/-- If every page that is requested is answered, a crawl finds everything on the pages that each way leads to over
few enough links. It finds nothing but what is on pages that some such way leads to. -/
theorem crawl_finds (fetch : Url → Run Id String) {s : String} {root : Url} (hroot : Url.ofText? s = some root)
    (depth : Nat) {log : List Url} {x : Except Failure (List String)}
    (hends : (crawl (noted fetch) root depth).Ends [] x log)
    (hanswered : ∀ u ∈ log, ∃ body, fetch u = pure body) :
    ∃ found, x = .ok found ∧
      (∀ page, (∃ before, Way fetch root page before) →
        (∀ before, Way fetch root page before → before.length ≤ depth - 1) →
        page ∈ log ∧ ∃ body, fetch page = pure body ∧
          ∀ u ∈ targets root page body, isDirectory u = false → u.text ∈ found) ∧
      ∀ file ∈ found, Linked fetch root (depth - 1) file := by
  obtain ⟨x', log', hends', hcrawled⟩ := crawled_crawl fetch root depth
  obtain ⟨rfl, rfl⟩ := hends.unique hends'
  cases hcrawled with
  | missing failed missing =>
    obtain ⟨body, hbody⟩ := hanswered root (List.mem_singleton_self root)
    exact absurd (hbody.symm.trans failed) Run.pure_ne_throw
  | @failed log u e stopped first other =>
    obtain ⟨body, hbody⟩ := hanswered u (List.mem_append_right _ (List.mem_singleton_self u))
    exact absurd (hbody.symm.trans stopped.failed) Run.pure_ne_throw
  | @found more known body record settled fetched =>
    refine ⟨_, rfl, fun page hway hnear => ?_, fun file hfile => (Crawled.found record settled fetched).linked hfile⟩
    obtain ⟨before, hway⟩ := hway
    have hpage : page.text ∈ known.visited := by
      rcases hway.visited_or_long hroot record.visited List.mem_cons_self settled with hvisited | ⟨other, hother, hlong, -⟩
      · exact hvisited
      · exact absurd (hnear other hother) (Nat.not_le.mpr hlong)
    obtain ⟨v, hv, htext⟩ := List.mem_map.mp (record.mem_visited.mp hpage)
    obtain ⟨before', hway', -⟩ := record.ways v hv
    obtain rfl := hway'.eq_of_text hroot hway htext
    obtain ⟨body', hbody'⟩ := record.fetched v hv
    refine ⟨hv, body', hbody', fun u hu hfile => mem_ascending.mpr ((record.files _).mpr ?_)⟩
    exact ⟨v, hv, body', hbody', mem_files_iff.mpr ⟨u, hu, hfile, rfl⟩⟩

/-! ## A web of few pages -/

def Closed (fetch : Url → Run Id String) (root : Url) (pages : List Url) : Prop :=
  root ∈ pages ∧ ∀ page ∈ pages, ∀ body ∈ (Id.run (fetch page).run).toOption, ∀ u ∈ directories root page body, u ∈ pages

instance (fetch : Url → Run Id String) (root : Url) (pages : List Url) : Decidable (Closed fetch root pages) :=
  inferInstanceAs (Decidable (_ ∧ _))

section
variable {fetch : Url → Run Id String} {root page : Url} {before pages : List Url}

theorem Way.nodup (h : Way fetch root page before) : ((page :: before).map Url.text).Nodup := by
  induction h with
  | root => exact List.nodup_singleton _
  | on way fetched link fresh ih => exact List.nodup_cons.mpr ⟨fresh, ih⟩

theorem Way.mem_of_closed (hclosed : Closed fetch root pages) (h : Way fetch root page before) :
    ∀ v ∈ page :: before, v ∈ pages := by
  induction h with
  | root => exact List.forall_mem_singleton.mpr hclosed.1
  | @on page u before body way fetched link fresh ih =>
    refine List.forall_mem_cons.mpr ⟨?_, ih⟩
    exact hclosed.2 page (ih page List.mem_cons_self) body (Run.eq_pure_iff_toOption.mp fetched) u link

/-- No way is longer than there are pages. -/
theorem Way.length_lt (hclosed : Closed fetch root pages) (h : Way fetch root page before) :
    before.length < pages.length :=
  (List.Nodup.of_map _ h.nodup).length_le_of_subset (h.mem_of_closed hclosed)

end

def serving (pages : List (String × String)) : Web Id := .ofPages fun url =>
  match pages.lookup url with
  | some body => .ok ⟨200, .ofText body⟩
  | none => .ok ⟨404, .ofText ""⟩

def directoryAt (path : String) : Url := ⟨"http", some "h", path, none, none⟩

/-- Four pages. Two ways lead to the second of them, a short one and one over the third. -/
def crossing : Url → Run Id String := Http.fetchPage (serving [
  ("http://h/r/", "<a href='a/'>a</a> <a href='b/'>b</a>"),
  ("http://h/r/a/", "<a href='c/'>c</a>"),
  ("http://h/r/b/", "<a href='../a/'>a</a>"),
  ("http://h/r/a/c/", "<a href='f.yaml'>f</a>")]) {}

def crossed : List Url := ["/r/", "/r/b/", "/r/a/", "/r/a/c/"].map directoryAt

theorem crossing_closed : Closed crossing (directoryAt "/r/") crossed := by decide +kernel

theorem crossing_answers : ∀ u ∈ crossed, ∃ body, crossing u = pure body := by
  intro u hu
  have hsome : ∀ u ∈ crossed, ((Id.run (crossing u).run).toOption).isSome = true := by decide +kernel
  obtain ⟨body, hbody⟩ := Option.isSome_iff_exists.mp (hsome u hu)
  exact ⟨body, Run.eq_pure_iff_toOption.mpr hbody⟩

theorem crossing_way : Way crossing (directoryAt "/r/") (directoryAt "/r/a/c/") [directoryAt "/r/a/", directoryAt "/r/"] := by
  have hroot : crossing (directoryAt "/r/") = pure "<a href='a/'>a</a> <a href='b/'>b</a>" :=
    Run.eq_pure_iff_toOption.mpr (by decide +kernel)
  have hdirectory : crossing (directoryAt "/r/a/") = pure "<a href='c/'>c</a>" :=
    Run.eq_pure_iff_toOption.mpr (by decide +kernel)
  exact (Way.root.on hroot (by decide +kernel) (by decide +kernel)).on hdirectory (by decide +kernel) (by decide +kernel)

theorem crawl_finds_crossing :
    ∃ found, (crawl (noted crossing) (directoryAt "/r/") 4).Ends [] (.ok found) crossed ∧
      "http://h/r/a/c/f.yaml" ∈ found := by
  have hends : (crawl (noted crossing) (directoryAt "/r/") 4).Ends [] (.ok ["http://h/r/a/c/f.yaml"]) crossed :=
    Run.ends_ok_iff_toOption.mpr (by decide +kernel)
  obtain ⟨found, hfound, hall, -⟩ := crawl_finds crossing
    (show Url.ofText? "http://h/r/" = some (directoryAt "/r/") by decide +kernel) 4 hends crossing_answers
  obtain ⟨-, body, hbody, hfiles⟩ := hall (directoryAt "/r/a/c/") ⟨_, crossing_way⟩ fun before hway =>
    Nat.le_of_lt_succ (hway.length_lt crossing_closed)
  have hpage : crossing (directoryAt "/r/a/c/") = pure "<a href='f.yaml'>f</a>" :=
    Run.eq_pure_iff_toOption.mpr (by decide +kernel)
  obtain rfl := Run.pure_inj.mp (hbody.symm.trans hpage)
  exact ⟨found, hfound ▸ hends, hfiles (directoryAt "/r/a/c/f.yaml") (by decide +kernel) (by decide +kernel)⟩

/-- The depth is enough for the short way. But the longer one is gone first, and the directory is not visited
again. -/
theorem crawl_misses_crossing : Url.ofText? "http://h/r/" = some (directoryAt "/r/") ∧
    Linked crossing (directoryAt "/r/") (3 - 1) "http://h/r/a/c/f.yaml" ∧
    ∃ log, (crawl (noted crossing) (directoryAt "/r/") 3).Ends [] (.ok []) log ∧
      ∀ u ∈ log, ∃ body, crossing u = pure body := by
  refine ⟨by decide +kernel, ?_, crossed.take 3, Run.ends_ok_iff_toOption.mpr (by decide +kernel), fun u hu =>
    crossing_answers u (List.mem_of_mem_take hu)⟩
  have hpage : crossing (directoryAt "/r/a/c/") = pure "<a href='f.yaml'>f</a>" :=
    Run.eq_pure_iff_toOption.mpr (by decide +kernel)
  exact ⟨_, _, _, directoryAt "/r/a/c/f.yaml", crossing_way, by decide, hpage, by decide +kernel, by decide +kernel,
    by decide +kernel⟩

/-! ## How far down -/

/-- A link leads at most one name further down than its page. -/
def StepsDown (page u : Url) : Prop :=
  u.text.toList.count '/' ≤ page.text.toList.count '/' + if isDirectory u then 1 else 0

instance (page u : Url) : Decidable (StepsDown page u) := inferInstanceAs (Decidable (_ ≤ _))

def AllStepDown (fetch : Url → Run Id String) (root : Url) (links : Nat) : Prop :=
  ∀ page before body u, Way fetch root page before → before.length ≤ links → fetch page = pure body →
    u ∈ targets root page body → StepsDown page u

section
variable {fetch : Url → Run Id String} {root page : Url} {before : List Url} {links : Nat}

theorem Way.count_le (hdown : AllStepDown fetch root links) (h : Way fetch root page before)
    (hlength : before.length ≤ links) :
    page.text.toList.count '/' ≤ root.text.toList.count '/' + before.length := by
  induction h with
  | root => exact Nat.le_refl _
  | @on page u before body way fetched link fresh ih =>
    rw [List.length_cons] at hlength ⊢
    obtain ⟨htarget, hdirectory⟩ := mem_targets_of_mem_directories link
    have hstep := hdown page before body u way (by omega) fetched htarget
    rw [StepsDown, if_pos hdirectory] at hstep
    have := ih (by omega)
    omega

/-- A file is no further down than there are links to it. -/
theorem Linked.length_segments_le (hdown : AllStepDown fetch root links) {relative : String}
    (h : Linked fetch root links (root.text ++ relative)) : (Glob.segments relative).length ≤ links + 1 := by
  obtain ⟨page, before, body, u, hway, hlength, hbody, hu, hfile, htext⟩ := h
  have hstep := hdown page before body u hway hlength hbody hu
  have hpage := hway.count_le hdown hlength
  rw [StepsDown, hfile, htext, String.toList_append, List.count_append] at hstep
  rw [Glob.length_segments]
  simp only [Bool.false_eq_true, if_false] at hstep
  omega

end

end Crawl

namespace Http

open Crawl (AllStepDown Linked)
open Glob (deepSegment joinSegments)

section
variable {web : Web Id} {settings : Settings} {pattern : String} {args : Args} {maxdepth : Option Nat}
  {site rest paths : List String}

theorem exists_crawl_of_glob (hsplit : Glob.splitRoot pattern = (site, rest)) (hrest : rest ≠ [])
    (hdepth : Glob.limitOfArgs pattern args = .ok maxdepth) (hglob : glob web settings pattern args = pure paths) :
    ∃ root p found, rootUrl pattern site = .ok root ∧ Glob.matcher (joinSegments rest) = .ok p ∧
      Crawl.crawl (fetchPage web settings) root ((Glob.depthLimit rest maxdepth).getD standardDepth) = pure found ∧
      paths = found.filter fun u => (relative? root u).any p.accepts := by
  have hempty : rest.isEmpty = false := by simpa using hrest
  simp only [glob, hdepth, hsplit, hempty, Run.bind_eq_pure_iff, Run.ofExcept_eq_pure_iff, Bool.false_eq_true,
    if_false, Except.ok.injEq, exists_eq_left', Run.pure_inj] at hglob
  obtain ⟨root, hroot, p, hp, found, hfound, rfl⟩ := hglob
  exact ⟨root, p, found, hroot, hp, hfound, rfl⟩

theorem eq_append_of_relative? {root : Url} {s relative : String} (h : relative? root s = some relative) :
    s = root.text ++ relative := by
  obtain ⟨cs, hcs, rfl⟩ := Option.map_eq_some_iff.mp h
  rw [← String.toList_inj, Text.dropHead?_eq_some.mp hcs, String.toList_append, String.toList_ofList]

theorem linked_of_crawl {fetch : Url → Run Id String} {root : Url} {depth : Nat} {found : List String}
    (h : Crawl.crawl fetch root depth = pure found) : ∀ s ∈ found, Linked fetch root (depth - 1) s := by
  obtain ⟨x, log, hends, hcrawled⟩ := Crawl.crawled_crawl fetch root depth
  obtain ⟨log', hends'⟩ := Crawl.crawl_like fetch root depth []
  obtain ⟨rfl, -⟩ := hends.unique hends'
  rw [h] at hcrawled
  exact fun s hs => hcrawled.linked hs

end

/-- With a depth limit, a listing finds what links lead to over fewer pages. So the limit bounds the names of what
is found below the root, if each link leads at most one name further down. -/
theorem glob_links_below (web : Web Id) (settings : Settings) {pattern : String} {args : Args} {d : Nat}
    {site rest paths : List String} (hsplit : Glob.splitRoot pattern = (site, rest)) (hdeep : deepSegment ∈ rest)
    (hdepth : Glob.limitOfArgs pattern args = .ok (some d)) (hglob : glob web settings pattern args = pure paths) :
    ∃ root links, rootUrl pattern site = .ok root ∧ links + 1 = max 1 (rest.countP (· != deepSegment) + d) ∧
      (∀ s ∈ paths, Linked (fetchPage web settings) root links s) ∧
      (AllStepDown (fetchPage web settings) root links → ∀ s ∈ paths, ∃ relative, s = root.text ++ relative ∧
        (Glob.segments relative).length ≤ max 1 (rest.countP (· != deepSegment) + d)) := by
  obtain ⟨root, p, found, hroot, -, hcrawl, rfl⟩ :=
    exists_crawl_of_glob hsplit (List.ne_nil_of_mem hdeep) hdepth hglob
  have hlimit : (Glob.depthLimit rest (some d)).getD standardDepth = rest.countP (· != deepSegment) + d := by
    rw [Glob.depthLimit, if_pos (List.contains_iff_mem.mpr hdeep)]
    rfl
  rw [hlimit] at hcrawl
  have hlinked : ∀ s ∈ found.filter fun u => (relative? root u).any p.accepts,
      Linked (fetchPage web settings) root (rest.countP (· != deepSegment) + d - 1) s :=
    fun s hs => linked_of_crawl hcrawl s (List.mem_of_mem_filter hs)
  refine ⟨root, _, hroot, by omega, hlinked, fun hdown s hs => ?_⟩
  -- what follows the root in a path that was found
  obtain ⟨relative, hrelative, -⟩ := (Option.any_eq_true _ _).mp (List.mem_filter.mp hs).2
  obtain rfl := eq_append_of_relative? hrelative
  have := (hlinked _ hs).length_segments_le hdown
  exact ⟨relative, rfl, by omega⟩

theorem splitRoot_documents :
    Glob.splitRoot "http://h/r/**/*.yaml" = (["http:", "", "h", "r"], ["**", "*.yaml"]) := by decide

theorem rootUrl_documents :
    rootUrl "http://h/r/**/*.yaml" ["http:", "", "h", "r"] = .ok (Crawl.directoryAt "/r/") := by
  have hurl : Url.ofText? (joinSegments ["http:", "", "h", "r"] ++ "/") = some (Crawl.directoryAt "/r/") := by
    decide +kernel
  rw [rootUrl, hurl]

def descending : Web Id := Crawl.serving [
  ("http://h/r/", "<a href='a/'>a</a>"),
  ("http://h/r/a/", "<a href='b.yaml'>b</a>")]

theorem glob_links_below_descending :
    AllStepDown (fetchPage descending {}) (Crawl.directoryAt "/r/") 1 ∧
      Linked (fetchPage descending {}) (Crawl.directoryAt "/r/") 1 "http://h/r/a/b.yaml" ∧
      ∃ relative, "http://h/r/a/b.yaml" = (Crawl.directoryAt "/r/").text ++ relative ∧
        (Glob.segments relative).length ≤ 2 := by
  have hglob : glob descending {} "http://h/r/**/*.yaml" (.ofPositional [depthValue (some 1)]) =
      pure ["http://h/r/a/b.yaml"] := Run.eq_pure_iff_toOption.mpr (by decide +kernel)
  have hclosed : Crawl.Closed (fetchPage descending {}) (Crawl.directoryAt "/r/")
      [Crawl.directoryAt "/r/", Crawl.directoryAt "/r/a/"] := by decide +kernel
  have hdown : AllStepDown (fetchPage descending {}) (Crawl.directoryAt "/r/") 1 := by
    intro page before body u hway _ hbody hu
    have hall : ∀ page ∈ [Crawl.directoryAt "/r/", Crawl.directoryAt "/r/a/"],
        ∀ body ∈ (Id.run (fetchPage descending {} page).run).toOption,
          ∀ u ∈ Crawl.targets (Crawl.directoryAt "/r/") page body, Crawl.StepsDown page u := by decide +kernel
    exact hall page (hway.mem_of_closed hclosed page List.mem_cons_self) body (Run.eq_pure_iff_toOption.mp hbody) u hu
  obtain ⟨root, links, hroot, hlinks, hlinked, hnames⟩ :=
    glob_links_below descending {} splitRoot_documents (by decide) rfl hglob
  obtain rfl := Except.ok.inj (hroot.symm.trans rootUrl_documents)
  obtain rfl : links = 1 := Nat.succ.inj hlinks
  exact ⟨hdown, hlinked _ List.mem_cons_self, hnames hdown _ List.mem_cons_self⟩

/-- A page with a link to a file two names further down. -/
def leaping : Web Id := Crawl.serving [("http://h/r/", "<a href='a/b.yaml'>b</a>")]

/-- The link is found where nothing should be that is more than one name below the root. -/
theorem glob_leaps :
    Glob.splitRoot "http://h/r/**/*.yaml" = (["http:", "", "h", "r"], ["**", "*.yaml"]) ∧
      Glob.limitOfArgs "http://h/r/**/*.yaml" (.ofPositional [depthValue (some 0)]) = .ok (some 0) ∧
      rootUrl "http://h/r/**/*.yaml" ["http:", "", "h", "r"] = .ok (Crawl.directoryAt "/r/") ∧
      glob leaping {} "http://h/r/**/*.yaml" (.ofPositional [depthValue (some 0)]) = pure ["http://h/r/a/b.yaml"] ∧
      "http://h/r/a/b.yaml" = (Crawl.directoryAt "/r/").text ++ "a/b.yaml" ∧
      max 1 (["**", "*.yaml"].countP (· != deepSegment) + 0) < (Glob.segments "a/b.yaml").length :=
  ⟨splitRoot_documents, rfl, rootUrl_documents, Run.eq_pure_iff_toOption.mpr (by decide +kernel), by decide, by decide⟩

end Http
end Transclusion
