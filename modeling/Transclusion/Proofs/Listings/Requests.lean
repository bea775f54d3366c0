import Transclusion.Http.Remote
import Transclusion.Proofs.Listings.Bytes
import Transclusion.Proofs.Listings.Worklist

/-!
# The requests of a crawl

A crawl asks for pages, one after the other, and reads the links of each. Which pages these are depends on what
is answered alone, and may be any, one page leading to the next without end.

* `Crawl.noted` : a fetch that notes each page it is asked for;
* `Crawl.Way` : how a page is come to from the root, over directories, none of them twice;
* `Crawl.Record` : what is known after pages were requested; `Crawl.Grown` : what further pages add;
* `Crawl.explore_ends` : the exploration of a page ends with a record, or at the first page that fails;
* `Crawl.Crawled`, `Crawl.crawled_crawl` : how a crawl ends, and which pages it requested;
* `Crawl.crawl_requests` : a crawl ends, whatever is answered, and requests pages below its root, each once.
-/

namespace Transclusion
namespace Crawl

/-! ## Links -/

section
variable {root page u : Url} {body : String}

theorem mem_targets_iff : u ∈ targets root page body ↔
    (∃ link ∈ Page.links body, Page.follow? page link = some u) ∧ isBelow root page u = true := by
  simp only [targets, List.mem_filter, List.mem_filterMap]

theorem prefix_of_isBelow (h : isBelow root page u = true) : root.text.toList <+: u.text.toList := by
  simp only [isBelow, Bool.and_eq_true, List.isPrefixOf_iff_prefix] at h
  exact h.2

theorem mem_targets_of_mem_directories (h : u ∈ directories root page body) :
    u ∈ targets root page body ∧ isDirectory u = true := List.mem_filter.mp h

theorem mem_files_iff {s : String} : s ∈ files root page body ↔
    ∃ u ∈ targets root page body, isDirectory u = false ∧ u.text = s := by
  simp only [files, List.mem_map, List.mem_filter, Bool.not_eq_true', and_assoc]

/-- A link that is followed leads to the web, and has lost its query and fragment. -/
theorem of_follow? {link : String} (h : Page.follow? page link = some u) :
    u.isWeb = true ∧ u.query = none ∧ u.fragment = none := by
  unfold Page.follow? at h
  split at h
  · cases h
  · split at h
    · split at h
      · cases h
        exact ⟨‹_›, rfl, rfl⟩
      · cases h
    · cases h

end

/-! ## Fetching -/

def noted (fetch : Url → Run Id String) (u : Url) : Run (StateM (List Url)) String := do
  ExceptT.lift (modify (· ++ [u]))
  MonadExcept.ofExcept (Id.run (fetch u).run)

section
variable {fetch : Url → Run Id String} {u : Url}

theorem noted_ends (fetch : Url → Run Id String) (u : Url) (log : List Url) :
    (noted fetch u).Ends log (Id.run (fetch u).run) (log ++ [u]) := by
  unfold noted
  cases Id.run (fetch u).run with
  | ok body => exact Run.Ends.pure _ _
  | error e => exact Run.Ends.throw _ _

theorem noted_ends_ok {body : String} (h : fetch u = pure body) (log : List Url) :
    (noted fetch u).Ends log (.ok body) (log ++ [u]) := by
  have := noted_ends fetch u log
  rwa [h] at this

theorem noted_ends_error {e : Failure} (h : fetch u = throw e) (log : List Url) :
    (noted fetch u).Ends log (.error e) (log ++ [u]) := by
  have := noted_ends fetch u log
  rwa [h] at this

/-! ### What is noted changes nothing -/

theorem noted_like (fetch : Url → Run Id String) (u : Url) : (noted fetch u).Like (fetch u) :=
  fun log => ⟨_, noted_ends fetch u log⟩

theorem explore_like (fetch : Url → Run Id String) (root : Url) (left : Nat) (page : Url) (body : String)
    (known : Known) :
    (explore (noted fetch) root left page body known).Like (explore fetch root left page body known) := by
  induction left generalizing page body known with
  | zero => exact Run.Like.pure _
  | succ left ih =>
    rw [explore_succ, explore_succ]
    refine Run.Like.foldlM (fun known u => ?_) _ _
    unfold visit
    split
    · exact Run.Like.pure _
    · exact (noted_like fetch u).bind fun body => ih u body _

theorem crawl_like (fetch : Url → Run Id String) (root : Url) (depth : Nat) :
    (crawl (noted fetch) root depth).Like (crawl fetch root depth) := by
  refine Run.Like.bind (Run.Like.orElseOn ?_ fun f => ?_) fun first => ?_
  · exact (noted_like fetch root).bind fun body => Run.Like.pure (some body)
  · split
    · exact Run.Like.pure none
    · exact Run.Like.throw _
  · cases first with
    | none => exact Run.Like.pure []
    | some body => exact (explore_like fetch root (depth - 1) root body _).bind fun known => Run.Like.pure _

end

/-! ## Ways -/

/-- A page is come to from the root over other pages, the last of them first. Each page leads to the next as a
directory, and none comes twice. -/
inductive Way (fetch : Url → Run Id String) (root : Url) : Url → List Url → Prop where
  | root : Way fetch root root []
  | on {page u : Url} {before : List Url} {body : String} (way : Way fetch root page before)
      (fetched : fetch page = pure body) (link : u ∈ directories root page body)
      (fresh : u.text ∉ (page :: before).map Url.text) : Way fetch root u (page :: before)

theorem Way.underRoot {fetch : Url → Run Id String} {root page : Url} {before : List Url}
    (h : Way fetch root page before) : root.text.toList <+: page.text.toList := by
  cases h with
  | root => exact List.prefix_rfl
  | on _ _ link _ =>
    exact prefix_of_isBelow (mem_targets_iff.mp (mem_targets_of_mem_directories link).1).2

/-! ## What is known after some requests -/

/-- What is known after pages were requested, each of them once and none in vain. The way to each of them has at
most so many links. -/
structure Record (fetch : Url → Run Id String) (root : Url) (links : Nat) (log : List Url) (known : Known) :
    Prop where
  visited : known.visited = (log.map Url.text).reverse
  once : (log.map Url.text).Nodup
  fetched : ∀ u ∈ log, ∃ body, fetch u = pure body
  ways : ∀ u ∈ log, ∃ before, Way fetch root u before ∧ before.length ≤ links
  files : ∀ s, s ∈ known.files ↔ ∃ u ∈ log, ∃ body, fetch u = pure body ∧ s ∈ Crawl.files root u body

/-- A page was come to over visited pages, and all its directories were visited, unless the way to it has as
many links as there may be. -/
structure Settled (fetch : Url → Run Id String) (root : Url) (links : Nat) (visited : List String) (page : Url)
    (body : String) (before : List Url) : Prop where
  fetched : fetch page = pure body
  way : Way fetch root page before
  along : ∀ v ∈ before, v.text ∈ visited
  directories : before.length < links → ∀ u ∈ directories root page body, u.text ∈ visited

structure Grown (fetch : Url → Run Id String) (root : Url) (links : Nat) (log more : List Url)
    (visited : List String) (known : Known) : Prop where
  record : Record fetch root links (log ++ more) known
  kept : ∀ s ∈ visited, s ∈ known.visited
  settled : ∀ u ∈ more, ∃ body before, Settled fetch root links known.visited u body before

/-- The page `u` failed, and was the first that did. -/
structure Stopped (fetch : Url → Run Id String) (root : Url) (links : Nat) (log : List Url) (u : Url) (e : Failure) :
    Prop where
  record : ∃ known, Record fetch root links log known
  fresh : u.text ∉ log.map Url.text
  way : ∃ before, Way fetch root u before
  failed : fetch u = throw e

section
variable {fetch : Url → Run Id String} {root page u : Url} {links : Nat} {log more more' before : List Url}
  {known known' : Known} {body : String}

theorem Record.mem_visited (h : Record fetch root links log known) {s : String} :
    s ∈ known.visited ↔ s ∈ log.map Url.text := by
  rw [h.visited, List.mem_reverse]

theorem Record.request (h : Record fetch root links log known) (hfresh : u.text ∉ known.visited)
    (hbody : fetch u = pure body) (hway : Way fetch root u before) (hlength : before.length ≤ links) :
    Record fetch root links (log ++ [u]) ⟨u.text :: known.visited, known.files ++ Crawl.files root u body⟩ where
  visited := by simp [h.visited]
  once := by
    rw [h.mem_visited] at hfresh
    rw [List.map_append, List.map_singleton, List.nodup_append]
    exact ⟨h.once, List.nodup_singleton _, fun s hs t ht heq => hfresh (by simp_all)⟩
  fetched := by
    intro v hv
    rcases List.mem_append.mp hv with hv | hv
    · exact h.fetched v hv
    · exact ⟨body, by rw [List.mem_singleton.mp hv, hbody]⟩
  ways := by
    intro v hv
    rcases List.mem_append.mp hv with hv | hv
    · exact h.ways v hv
    · exact ⟨before, by rw [List.mem_singleton.mp hv]; exact hway, hlength⟩
  files := by
    intro s
    rw [List.mem_append, h.files]
    constructor
    · rintro (⟨v, hv, hlinked⟩ | hs)
      · exact ⟨v, List.mem_append_left _ hv, hlinked⟩
      · exact ⟨u, List.mem_append_right _ (List.mem_singleton_self u), body, hbody, hs⟩
    · rintro ⟨v, hv, body', hbody', hs⟩
      rcases List.mem_append.mp hv with hv | hv
      · exact .inl ⟨v, hv, body', hbody', hs⟩
      · obtain rfl := List.mem_singleton.mp hv
        rw [hbody, Run.pure_inj] at hbody'
        exact .inr (hbody' ▸ hs)

theorem Settled.mono {visited visited' : List String} (h : Settled fetch root links visited page body before)
    (hsub : ∀ s ∈ visited, s ∈ visited') : Settled fetch root links visited' page body before where
  fetched := h.fetched
  way := h.way
  along := fun v hv => hsub _ (h.along v hv)
  directories := fun hlength w hw => hsub _ (h.directories hlength w hw)

theorem Grown.refl (h : Record fetch root links log known) :
    Grown fetch root links log [] known.visited known where
  record := by rwa [List.append_nil]
  kept := fun _ hs => hs
  settled := by simp

theorem Grown.trans {visited : List String} (h : Grown fetch root links log more visited known)
    (h' : Grown fetch root links (log ++ more) more' known.visited known') :
    Grown fetch root links log (more ++ more') visited known' where
  record := by rw [← List.append_assoc]; exact h'.record
  kept := fun s hs => h'.kept s (h.kept s hs)
  settled := by
    intro v hv
    rcases List.mem_append.mp hv with hv | hv
    · obtain ⟨body, before, hsettled⟩ := h.settled v hv
      exact ⟨body, before, hsettled.mono h'.kept⟩
    · exact h'.settled v hv

/-- A page was requested, and then further ones, after which its directories were visited. -/
theorem Grown.request {visited : List String}
    (h : Grown fetch root links (log ++ [u]) more (u.text :: visited) known)
    (hsettled : Settled fetch root links known.visited u body before) :
    Grown fetch root links log (u :: more) visited known where
  record := by
    have := h.record
    rwa [List.append_assoc] at this
  kept := fun s hs => h.kept s (List.mem_cons_of_mem _ hs)
  settled := List.forall_mem_cons.mpr ⟨⟨body, before, hsettled⟩, h.settled⟩

end

/-! ## How an exploration ends -/

section
variable {fetch : Url → Run Id String} {root page u : Url} {links left : Nat} {log before us : List Url}
  {known : Known} {body : String}

/-- A run over pages ends well, and then `P` holds of what was visited, or it ends at the first page that
fails. -/
def EndsWell (fetch : Url → Run Id String) (root : Url) (links : Nat) (log : List Url) (visited : List String)
    (P : List String → Prop) (r : Run (StateM (List Url)) Known) : Prop :=
  (∃ known more, r.Ends log (.ok known) (log ++ more) ∧ Grown fetch root links log more visited known ∧
      P known.visited) ∨
    ∃ e more u, r.Ends log (.error e) (log ++ more ++ [u]) ∧ Stopped fetch root links (log ++ more) u e

/-- A page that has just been requested can be explored, so many levels deep. -/
def Explorable (fetch : Url → Run Id String) (root : Url) (links left : Nat) : Prop :=
  ∀ {page : Url} {body : String} {before log : List Url} (known : Known),
    Record fetch root links log ⟨known.visited, known.files ++ files root page body⟩ →
    fetch page = pure body → Way fetch root page before → (∀ v ∈ page :: before, v.text ∈ known.visited) →
    before.length + left = links →
    EndsWell fetch root links log known.visited
      (fun visited => ∃ before, Settled fetch root links visited page body before)
      (explore (noted fetch) root left page body known)

/-- A directory that a page leads to is visited, or was visited before. -/
theorem visit_ends (hexplorable : Explorable fetch root links left) (hrecord : Record fetch root links log known)
    (hbody : fetch page = pure body) (hway : Way fetch root page before)
    (halong : ∀ v ∈ page :: before, v.text ∈ known.visited) (hlength : before.length + (left + 1) = links)
    (hu : u ∈ directories root page body) :
    EndsWell fetch root links log known.visited (u.text ∈ ·) (visit (noted fetch) root left known u) := by
  by_cases hvisited : u.text ∈ known.visited
  · refine .inl ⟨known, [], ?_, .refl hrecord, hvisited⟩
    rw [List.append_nil, visit, if_pos (List.contains_iff_mem.mpr hvisited)]
    exact Run.Ends.pure _ _
  · rw [visit, if_neg (by simpa using hvisited)]
    have hfresh : u.text ∉ (page :: before).map Url.text := by
      intro hmem
      obtain ⟨v, hv, heq⟩ := List.mem_map.mp hmem
      exact hvisited (heq ▸ halong v hv)
    have hway' : Way fetch root u (page :: before) := hway.on hbody hu hfresh
    have hlinks : (page :: before).length + left = links := by
      rw [List.length_cons]
      omega
    rcases Run.eq_pure_or_eq_throw (fetch u) with ⟨body', hbody'⟩ | ⟨e, he⟩
    · have hrequest := hrecord.request hvisited hbody' hway' (by omega)
      have halong' : ∀ v ∈ u :: page :: before, v.text ∈ u.text :: known.visited :=
        List.forall_mem_cons.mpr ⟨List.mem_cons_self, fun v hv => List.mem_cons_of_mem _ (halong v hv)⟩
      have hread {x s'} (h : (explore (noted fetch) root left u body' ⟨u.text :: known.visited, known.files⟩).Ends
          (log ++ [u]) x s') : (do
            let body ← noted fetch u
            explore (noted fetch) root left u body ⟨u.text :: known.visited, known.files⟩).Ends log x s' :=
        Run.Ends.bind (noted_ends_ok hbody' log) h
      rcases hexplorable ⟨u.text :: known.visited, known.files⟩ hrequest hbody' hway' halong' hlinks with
        ⟨known', more, hends, hgrown, before', hsettled⟩ | ⟨e, more, v, hends, hstopped⟩
      · refine .inl ⟨known', u :: more, ?_, hgrown.request hsettled, hgrown.kept _ List.mem_cons_self⟩
        have := hread hends
        rwa [List.append_assoc] at this
      · refine .inr ⟨e, u :: more, v, ?_, ?_⟩
        · have := hread hends
          rwa [List.append_assoc log] at this
        · rwa [List.append_assoc] at hstopped
    · refine .inr ⟨e, [], u, ?_, ⟨known, ?_⟩, ?_, ⟨_, hway'⟩, he⟩
      · rw [List.append_nil]
        exact (noted_ends_error he log).bind_error
      · rwa [List.append_nil]
      · rwa [List.append_nil, ← hrecord.mem_visited]

/-- The directories of a page are visited one after the other. -/
theorem foldlM_visit_ends (hexplorable : Explorable fetch root links left)
    (hrecord : Record fetch root links log known) (hbody : fetch page = pure body)
    (hway : Way fetch root page before) (halong : ∀ v ∈ page :: before, v.text ∈ known.visited)
    (hlength : before.length + (left + 1) = links) (hus : ∀ u ∈ us, u ∈ directories root page body) :
    EndsWell fetch root links log known.visited (fun visited => ∀ u ∈ us, u.text ∈ visited)
      (us.foldlM (visit (noted fetch) root left) known) := by
  induction us generalizing log known with
  | nil =>
    refine .inl ⟨known, [], ?_, .refl hrecord, by simp⟩
    rw [List.append_nil]
    exact Run.Ends.pure _ _
  | cons u us ih =>
    obtain ⟨hu, hrest⟩ := List.forall_mem_cons.mp hus
    rw [List.foldlM_cons]
    rcases visit_ends hexplorable hrecord hbody hway halong hlength hu with
      ⟨known₁, more, hends, hgrown, hdone⟩ | ⟨e, more, v, hends, hstopped⟩
    · rcases ih hgrown.record (fun v hv => hgrown.kept _ (halong v hv)) hrest with
        ⟨known₂, more', hends', hgrown', hdone'⟩ | ⟨e, more', v, hends', hstopped⟩
      · refine .inl ⟨known₂, more ++ more', ?_, hgrown.trans hgrown', ?_⟩
        · rw [← List.append_assoc]
          exact hends.bind hends'
        · exact List.forall_mem_cons.mpr ⟨hgrown'.kept _ hdone, hdone'⟩
      · refine .inr ⟨e, more ++ more', v, ?_, ?_⟩
        · rw [← List.append_assoc log]
          exact hends.bind hends'
        · rwa [← List.append_assoc]
    · exact .inr ⟨e, more, v, hends.bind_error, hstopped⟩

/-- The exploration of a page ends with a record of all pages that were requested, or at the first that fails. -/
theorem explore_ends (left : Nat) : Explorable fetch root links left := by
  induction left with
  | zero =>
    intro page body before log known hrecord hbody hway halong hlength
    refine .inl ⟨⟨known.visited, known.files ++ files root page body⟩, [], ?_, .refl hrecord, before, hbody, hway,
      fun v hv => halong v (List.mem_cons_of_mem _ hv), fun hroom => by omega⟩
    rw [List.append_nil]
    exact Run.Ends.pure _ _
  | succ left ih =>
    intro page body before log known hrecord hbody hway halong hlength
    rw [explore_succ]
    have hus : ∀ u ∈ (directories root page body).reverse, u ∈ directories root page body :=
      fun u hu => List.mem_reverse.mp hu
    rcases foldlM_visit_ends ih hrecord hbody hway halong hlength hus with
      ⟨known', more, hends, hgrown, hall⟩ | hstopped
    · refine .inl ⟨known', more, hends, hgrown, before, hbody, hway, ?_, ?_⟩
      · exact fun v hv => hgrown.kept _ (halong v (List.mem_cons_of_mem _ hv))
      · exact fun _ u hu => hall u (List.mem_reverse.mpr hu)
    · exact .inr hstopped

end

/-! ## How a crawl ends -/

/-- How a crawl ends, and which pages it requested. -/
inductive Crawled (fetch : Url → Run Id String) (root : Url) (depth : Nat) :
    List Url → Except Failure (List String) → Prop where
  | missing {f : Fault} (failed : fetch root = throw (.fault f)) (missing : f.isNotFound = true) :
      Crawled fetch root depth [root] (.ok [])
  | failed {log : List Url} {u : Url} {e : Failure} (stopped : Stopped fetch root (depth - 1) log u e)
      (first : (log ++ [u]).head? = some root)
      (other : ∀ f, fetch root = throw (.fault f) → f.isNotFound = false) :
      Crawled fetch root depth (log ++ [u]) (.error e)
  | found {more : List Url} {known : Known} {body : String}
      (record : Record fetch root (depth - 1) (root :: more) known)
      (settled : ∀ u ∈ root :: more, ∃ body before, Settled fetch root (depth - 1) known.visited u body before)
      (fetched : fetch root = pure body) :
      Crawled fetch root depth (root :: more) (.ok (ascending known.files))

section
variable {fetch : Url → Run Id String} {root : Url} {depth : Nat}

theorem Record.nil (links : Nat) : Record fetch root links [] ⟨[], []⟩ where
  visited := rfl
  once := List.nodup_nil
  fetched := by simp
  ways := by simp
  files := by simp

theorem crawled_crawl (fetch : Url → Run Id String) (root : Url) (depth : Nat) :
    ∃ x log, (crawl (noted fetch) root depth).Ends [] x log ∧ Crawled fetch root depth log x := by
  rcases Run.eq_pure_or_eq_throw (fetch root) with ⟨body, hbody⟩ | ⟨e, he⟩
  · have hfirst : ((some <$> noted fetch root).orElseOn fun f =>
        if f.isNotFound then pure none else Run.raise f).Ends [] (.ok (some body)) [root] :=
      ((noted_ends_ok hbody []).bind (Run.Ends.pure (some body) _)).orElseOn_ok
    have hrequest := (Record.nil (depth - 1)).request (by simp) hbody .root (Nat.zero_le _)
    rcases explore_ends (depth - 1) ⟨[root.text], []⟩ hrequest hbody .root
        (List.forall_mem_singleton.mpr (List.mem_singleton_self _)) (Nat.zero_add _) with
      ⟨known, more, hends, hgrown, before, hsettled⟩ | ⟨e, more, u, hends, hstopped⟩
    · refine ⟨_, _, hfirst.bind (hends.bind (Run.Ends.pure _ _)), .found hgrown.record ?_ hbody⟩
      exact List.forall_mem_cons.mpr ⟨⟨body, before, hsettled⟩, hgrown.settled⟩
    · refine ⟨_, _, hfirst.bind hends.bind_error, .failed hstopped rfl fun f hf => ?_⟩
      exact absurd (hbody.symm.trans hf) Run.pure_ne_throw
  · have hfirst : (some <$> noted fetch root).Ends [] (.error e) [root] := (noted_ends_error he []).bind_error
    rcases Worklist.missing_or_other e with ⟨f, rfl, hf⟩ | hother
    · have hnone : (if f.isNotFound then pure none else Run.raise f : Run (StateM (List Url)) (Option String)).Ends
          [root] (.ok none) [root] := by
        rw [if_pos hf]
        exact Run.Ends.pure _ _
      exact ⟨_, _, (hfirst.orElseOn_fault hnone).bind (Run.Ends.pure _ _), .missing he hf⟩
    · have hraised : ((some <$> noted fetch root).orElseOn fun f =>
          if f.isNotFound then pure none else Run.raise f).Ends [] (.error e) [root] := by
        cases e with
        | fault f =>
          refine hfirst.orElseOn_fault ?_
          rw [if_neg (by simp [hother f rfl])]
          exact Run.Ends.throw _ _
        | nesting => exact hfirst.orElseOn_cut nofun
        | timeoutOverflow => exact hfirst.orElseOn_cut nofun
      have hstopped : Stopped fetch root (depth - 1) [] root e := ⟨⟨_, .nil _⟩, by simp, ⟨[], .root⟩, he⟩
      refine ⟨_, _, hraised.bind_error, .failed hstopped rfl fun f hf => ?_⟩
      rw [he] at hf
      cases hf
      exact hother f rfl

/-- The pages that a crawl requests, and what comes of it. -/
structure Requests (fetch : Url → Run Id String) (root : Url) (log : List Url) (x : Except Failure (List String)) :
    Prop where
  first : log.head? = some root
  once : (log.map Url.text).Nodup
  underRoot : ∀ u ∈ log, root.text.toList <+: u.text.toList
  ascending : ∀ found, x = .ok found → found.Pairwise (Text.bytes · < Text.bytes ·)
  linked : ∀ found, x = .ok found → ∀ s ∈ found, ∃ page ∈ log, ∃ body, fetch page = pure body ∧
    ∃ link ∈ Page.links body, ∃ u, Page.follow? page link = some u ∧ u.text = s ∧ u.isWeb = true ∧
      root.text.toList <+: s.toList ∧ u.query = none ∧ u.fragment = none ∧ u.path.toList.getLast? ≠ some '/'
  missing : ∀ f, fetch root = throw (.fault f) → f.isNotFound = true → x = .ok []
  /-- The first page that fails makes the crawl fail, and is the last one. -/
  failing : (∀ f, fetch root = throw (.fault f) → f.isNotFound = false) →
    ∀ before u after e, log = before ++ u :: after → (∀ v ∈ before, ∃ body, fetch v = pure body) →
      fetch u = throw e → x = .error e ∧ after = []
  /-- Nothing else makes it fail. -/
  failed : ∀ e, x = .error e → ∃ before u, log = before ++ [u] ∧ fetch u = throw e ∧
    ∀ v ∈ before, ∃ body, fetch v = pure body

variable {log : List Url} {x : Except Failure (List String)}

theorem Stopped.underRoot {links : Nat} {u : Url} {e : Failure} (h : Stopped fetch root links log u e) :
    ∀ v ∈ log ++ [u], root.text.toList <+: v.text.toList := by
  obtain ⟨known, hrecord⟩ := h.record
  obtain ⟨before, hway⟩ := h.way
  intro v hv
  rcases List.mem_append.mp hv with hv | hv
  · obtain ⟨before', hway', -⟩ := hrecord.ways v hv
    exact hway'.underRoot
  · rw [List.mem_singleton.mp hv]
    exact hway.underRoot

/-- Whatever follows a page that fails, no page before it does. -/
theorem Record.append_cons_eq {links : Nat} {known : Known} {before after : List Url} {u v : Url} {e : Failure}
    (h : Record fetch root links log known) (hsplit : log ++ [u] = before ++ v :: after)
    (hfailed : fetch v = throw e) : before = log ∧ u = v ∧ after = [] := by
  have hnot : v ∉ log := by
    intro hv
    obtain ⟨body, hbody⟩ := h.fetched v hv
    exact Run.pure_ne_throw (hbody.symm.trans hfailed)
  rcases List.eq_nil_or_concat after with rfl | ⟨after', w, rfl⟩
  · obtain ⟨rfl, heq⟩ := List.append_inj' hsplit rfl
    exact ⟨rfl, List.singleton_inj.mp heq, rfl⟩
  · rw [List.concat_eq_append, ← List.cons_append, ← List.append_assoc] at hsplit
    obtain ⟨rfl, -⟩ := List.append_inj' hsplit rfl
    exact absurd (List.mem_append_right _ List.mem_cons_self) hnot

theorem Crawled.requests (h : Crawled fetch root depth log x) : Requests fetch root log x := by
  cases h with
  | @missing f failed missing =>
    refine ⟨rfl, List.nodup_singleton _, by simp, ?_, ?_, fun _ _ _ => rfl, fun hother => ?_, fun e he => ?_⟩
    · rintro found ⟨⟩
      exact List.Pairwise.nil
    · rintro found ⟨⟩ s hs
      cases hs
    · rw [hother f failed] at missing
      cases missing
    · cases he
  | @failed log u e stopped first other =>
    obtain ⟨known, hrecord⟩ := stopped.record
    refine ⟨first, ?_, stopped.underRoot, nofun, nofun, fun f hf hmissing => ?_, ?_, ?_⟩
    · rw [List.map_append, List.map_singleton, List.nodup_append]
      exact ⟨hrecord.once, List.nodup_singleton _, fun s hs t ht heq => stopped.fresh (by simp_all)⟩
    · rw [other f hf] at hmissing
      cases hmissing
    · intro _ before v after e' hsplit _ hfailed
      obtain ⟨rfl, rfl, rfl⟩ := hrecord.append_cons_eq hsplit hfailed
      have heq := stopped.failed.symm.trans hfailed
      cases heq
      exact ⟨rfl, rfl⟩
    · rintro e' ⟨⟩
      exact ⟨log, u, rfl, stopped.failed, hrecord.fetched⟩
  | @found more known body record settled fetched =>
    refine ⟨rfl, record.once, fun u hu => ?_, ?_, ?_, fun f hf => ?_, ?_, fun e he => ?_⟩
    · obtain ⟨before, hway, -⟩ := record.ways u hu
      exact hway.underRoot
    · rintro found ⟨⟩
      exact (pairwise_ascending _).imp Text.bytes_lt_bytes_iff.mpr
    · rintro found ⟨⟩ s hs
      obtain ⟨page, hpage, body', hbody', hs⟩ := (record.files s).mp (mem_ascending.mp hs)
      obtain ⟨u, hu, hfile, rfl⟩ := mem_files_iff.mp hs
      obtain ⟨⟨link, hlink, hfollow⟩, hbelow⟩ := mem_targets_iff.mp hu
      obtain ⟨hweb, hquery, hfragment⟩ := of_follow? hfollow
      exact ⟨page, hpage, body', hbody', link, hlink, u, hfollow, rfl, hweb, prefix_of_isBelow hbelow, hquery,
        hfragment, by simpa [isDirectory] using hfile⟩
    · exact absurd (fetched.symm.trans hf) Run.pure_ne_throw
    · intro _ before u after e hsplit _ hfailed
      obtain ⟨body', hbody'⟩ := record.fetched u (hsplit ▸ List.mem_append_right _ List.mem_cons_self)
      exact absurd (hbody'.symm.trans hfailed) Run.pure_ne_throw
    · cases he

/-- A page that is answered with 404 is missing. -/
theorem fetchPage_of_notFound {web : Web Id} {settings : Http.Settings} {page : Url} {request : Request}
    {answer : Response} (hrequest : Request.make? page.text settings.headers settings.timeout = .ok request)
    (hanswer : Id.run (web.get request) = .ok answer) (hstatus : answer.status = 404) :
    Http.fetchPage web settings page = throw (.fault (.notFound page.text)) := by
  unfold Http.fetchPage Http.send
  rw [hrequest]
  change ((liftM (web.get request) : Run Id (Except HttpFault Response)) >>= _) >>= _ = _
  have hget : (liftM (web.get request) : Run Id (Except HttpFault Response)) = pure (.ok answer) :=
    congrArg (pure (f := Run Id)) hanswer
  rw [hget, pure_bind]
  simp only [hstatus, if_pos]
  rfl

end

open Relation (ReflTransGen) in
/-- A crawl ends, whatever is answered: made as a loop it takes only so many turns, and leads to the same. It
requests its root first, only pages below the root, and none of them twice. -/
theorem crawl_requests (fetch : Url → Run Id String) (root : Url) (depth : Nat) :
    WellFounded (fun later now => Worklist.Turn fetch root depth now later) ∧
      ∃ x log w, (crawl (noted fetch) root depth).Ends [] x log ∧ Requests fetch root log x ∧
        ReflTransGen (Worklist.Turn fetch root depth) (.start root) w ∧ Worklist.Done fetch root w x := by
  obtain ⟨x, log, hends, hcrawled⟩ := crawled_crawl fetch root depth
  obtain ⟨w, hturns, hdone⟩ := Worklist.exists_done_crawl fetch root depth
  refine ⟨Worklist.wellFounded_turn fetch root depth, x, log, w, hends, hcrawled.requests, hturns, ?_⟩
  -- the pages are noted only in one of the two
  obtain ⟨log', hends'⟩ := crawl_like fetch root depth []
  rw [(hends.unique hends').1]
  exact hdone

end Crawl
end Transclusion
