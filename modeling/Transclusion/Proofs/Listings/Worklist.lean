import Mathlib.Logic.Hydra
import Transclusion.Proofs.Listings.Pages
import Transclusion.Proofs.Runs

/-!
# A crawl as a loop

A crawl can be made with a list of pages still to come to. Each turn takes the first of them away, and may put any
number of others before what remains. They are one level further down each, so that the loop comes to an end
whatever is answered.

* `Crawl.Worklist.Turn`, `Crawl.Worklist.Done` : one turn, and how the loop ends;
* `Crawl.Worklist.wellFounded_turn` : there are no endless turns;
* `Crawl.Worklist.exists_done_crawl` : the loop ends with what a crawl gives.
-/

namespace Transclusion
namespace Crawl

open Relation (CutExpand ReflTransGen)

/-- Pages to come to, the next one first, each with its level, and what is known. -/
structure Worklist where
  pending : List (Url × Nat)
  known : Known

namespace Worklist

def start (root : Url) : Worklist := ⟨[(root, 1)], ⟨[], []⟩⟩

def further (root : Url) (depth : Nat) (page : Url) (level : Nat) (body : String) : List (Url × Nat) :=
  if level < depth then (directories root page body).reverse.map (·, level + 1) else []

/-- The next page is left out if it was visited, and read otherwise. -/
inductive Turn (fetch : Url → Run Id String) (root : Url) (depth : Nat) : Worklist → Worklist → Prop where
  | again {page : Url} {level : Nat} {pending : List (Url × Nat)} {known : Known}
      (visited : page.text ∈ known.visited) :
      Turn fetch root depth ⟨(page, level) :: pending, known⟩ ⟨pending, known⟩
  | read {page : Url} {level : Nat} {pending : List (Url × Nat)} {known : Known} {body : String}
      (fresh : page.text ∉ known.visited) (fetched : fetch page = pure body) :
      Turn fetch root depth ⟨(page, level) :: pending, known⟩
        ⟨further root depth page level body ++ pending,
          ⟨page.text :: known.visited, known.files ++ files root page body⟩⟩

inductive Stuck (fetch : Url → Run Id String) : Worklist → Url → Failure → Prop where
  | intro {page : Url} {level : Nat} {pending : List (Url × Nat)} {known : Known} {e : Failure}
      (fresh : page.text ∉ known.visited) (failed : fetch page = throw e) :
      Stuck fetch ⟨(page, level) :: pending, known⟩ page e

/-- How the loop ends. There is nothing below a root that is missing. -/
inductive Done (fetch : Url → Run Id String) (root : Url) : Worklist → Except Failure (List String) → Prop where
  | empty (known : Known) : Done fetch root ⟨[], known⟩ (.ok (ascending known.files))
  | missing {w : Worklist} {f : Fault} (stuck : Stuck fetch w root (.fault f)) (missing : f.isNotFound = true) :
      Done fetch root w (.ok [])
  | failed {w : Worklist} {page : Url} {e : Failure} (stuck : Stuck fetch w page e)
      (other : page = root → ∀ f, e = .fault f → f.isNotFound = false) : Done fetch root w (.error e)

variable {fetch : Url → Run Id String} {root page : Url} {depth level left : Nat} {w w' : Worklist}
  {pending : List (Url × Nat)} {known : Known}

theorem Stuck.failed {e : Failure} (h : Stuck fetch w page e) : fetch page = throw e := by
  cases h with
  | intro _ failed => exact failed

/-! ## The end of the loop -/

/-- How many levels each of the pending pages has left. -/
def rank (depth : Nat) (w : Worklist) : Multiset Nat := w.pending.map (depth - ·.2)

theorem Turn.cutExpand (h : Turn fetch root depth w w') : CutExpand (· < ·) (rank depth w') (rank depth w) := by
  cases h with
  | @again page level pending known visited =>
    exact ⟨0, depth - level, by simp, by simp [rank, add_comm]⟩
  | @read page level pending known body fresh fetched =>
    refine ⟨((further root depth page level body).map (depth - ·.2) : List Nat), depth - level, fun n hn => ?_, ?_⟩
    · obtain ⟨⟨u, next⟩, hu, rfl⟩ := List.mem_map.mp (Multiset.mem_coe.mp hn)
      unfold further at hu
      split at hu
      · obtain ⟨v, -, heq⟩ := List.mem_map.mp hu
        obtain ⟨-, rfl⟩ := Prod.mk.inj heq
        change depth - (level + 1) < depth - level
        omega
      · cases hu
    · simp only [rank, List.map_append, List.map_cons, ← Multiset.coe_add, ← Multiset.cons_coe,
        ← Multiset.singleton_add]
      ac_rfl

theorem wellFounded_turn (fetch : Url → Run Id String) (root : Url) (depth : Nat) :
    WellFounded fun later now => Turn fetch root depth now later :=
  Subrelation.wf Turn.cutExpand (InvImage.wf (rank depth) (wellFounded_lt.cutExpand))

/-! ## What the loop gives -/

/-- The loop comes as far as a run: to what is pending after it, or to a page that fails. -/
def ComesTo (fetch : Url → Run Id String) (root : Url) (depth : Nat) (w : Worklist) (pending : List (Url × Nat))
    (r : Run Id Known) : Prop :=
  (∃ known, r = pure known ∧ ReflTransGen (Turn fetch root depth) w ⟨pending, known⟩) ∨
    ∃ e u w', r = throw e ∧ ReflTransGen (Turn fetch root depth) w w' ∧ Stuck fetch w' u e

/-- Pages that have just been read, so many levels above the depth. -/
def Follows (fetch : Url → Run Id String) (root : Url) (depth left : Nat) : Prop :=
  ∀ (level : Nat), depth - level = left → ∀ (page : Url) (body : String) (pending : List (Url × Nat)) (known : Known),
    ComesTo fetch root depth
      ⟨further root depth page level body ++ pending, ⟨known.visited, known.files ++ files root page body⟩⟩ pending
      (explore fetch root left page body known)

theorem ComesTo.turn (hturn : Turn fetch root depth w w') {r : Run Id Known}
    (h : ComesTo fetch root depth w' pending r) : ComesTo fetch root depth w pending r := by
  rcases h with ⟨known', hr, hturns⟩ | ⟨e, u, w'', hr, hturns, hstuck⟩
  · exact .inl ⟨known', hr, .head hturn hturns⟩
  · exact .inr ⟨e, u, w'', hr, .head hturn hturns, hstuck⟩

theorem comesTo_visit (hfollows : Follows fetch root depth left) (hlevel : depth - level = left) (u : Url)
    (pending : List (Url × Nat)) (known : Known) :
    ComesTo fetch root depth ⟨(u, level) :: pending, known⟩ pending (visit fetch root left known u) := by
  by_cases hvisited : u.text ∈ known.visited
  · exact .inl ⟨known, by simp [visit, hvisited], .single (.again hvisited)⟩
  · rw [visit, if_neg (by simpa using hvisited)]
    rcases Run.eq_pure_or_eq_throw (fetch u) with ⟨body, hbody⟩ | ⟨e, he⟩
    · rw [hbody, pure_bind]
      exact (hfollows level hlevel u body pending ⟨u.text :: known.visited, known.files⟩).turn
        (.read hvisited hbody)
    · exact .inr ⟨e, u, _, by rw [he]; rfl, .refl, .intro hvisited he⟩

theorem comesTo_foldlM_visit (hfollows : Follows fetch root depth left) (hlevel : depth - level = left)
    (us : List Url) (pending : List (Url × Nat)) (known : Known) :
    ComesTo fetch root depth ⟨us.map (·, level) ++ pending, known⟩ pending
      (us.foldlM (visit fetch root left) known) := by
  induction us generalizing known with
  | nil => exact .inl ⟨known, rfl, .refl⟩
  | cons u us ih =>
    rw [List.foldlM_cons, List.map_cons, List.cons_append]
    rcases comesTo_visit hfollows hlevel u (us.map (·, level) ++ pending) known with
      ⟨known₁, hvisit, hturns⟩ | ⟨e, v, w', hvisit, hturns, hstuck⟩
    · rw [hvisit, pure_bind]
      rcases ih known₁ with ⟨known₂, hfold, hturns'⟩ | ⟨e, v, w', hfold, hturns', hstuck⟩
      · exact .inl ⟨known₂, hfold, hturns.trans hturns'⟩
      · exact .inr ⟨e, v, w', hfold, hturns.trans hturns', hstuck⟩
    · exact .inr ⟨e, v, w', by rw [hvisit]; rfl, hturns, hstuck⟩

/-- The loop explores the pages below a page, before it comes to anything else. -/
theorem comesTo_explore (left : Nat) : Follows fetch root depth left := by
  induction left with
  | zero =>
    intro level hlevel page body pending known
    refine .inl ⟨_, rfl, ?_⟩
    rw [further, if_neg (by omega)]
    exact .refl
  | succ left ih =>
    intro level hlevel page body pending known
    rw [explore_succ, further, if_pos (by omega)]
    exact comesTo_foldlM_visit ih (by omega) _ _ _

theorem missing_or_other (e : Failure) :
    (∃ f, e = .fault f ∧ f.isNotFound = true) ∨ ∀ f, e = .fault f → f.isNotFound = false := by
  by_cases hmissing : ∃ f, e = .fault f ∧ f.isNotFound = true
  · exact .inl hmissing
  · exact .inr fun f hf => by simpa using fun htrue => hmissing ⟨f, hf, htrue⟩

theorem crawl_of_answered {body : String} (h : fetch root = pure body) :
    crawl fetch root depth = (do
      return ascending (← explore fetch root (depth - 1) root body ⟨[root.text], []⟩).files) := by
  simp [crawl, h, Run.orElseOn_pure]

theorem crawl_of_missing {f : Fault} (h : fetch root = throw (.fault f)) (hmissing : f.isNotFound = true) :
    crawl fetch root depth = pure [] := by
  unfold crawl
  rw [h]
  change (if f.isNotFound = true then _ else _ : Run Id (Option String)) >>= _ = _
  rw [if_pos hmissing]
  rfl

theorem crawl_of_failed {e : Failure} (h : fetch root = throw e)
    (hother : ∀ f, e = .fault f → f.isNotFound = false) : crawl fetch root depth = throw e := by
  unfold crawl
  rw [h]
  cases e with
  | fault f =>
    change (if f.isNotFound = true then _ else _ : Run Id (Option String)) >>= _ = _
    rw [if_neg (by simp [hother f rfl])]
    rfl
  | nesting => rfl
  | timeoutOverflow => rfl

/-- The loop ends, with what a crawl gives. -/
theorem exists_done_crawl (fetch : Url → Run Id String) (root : Url) (depth : Nat) :
    ∃ w, ReflTransGen (Turn fetch root depth) (start root) w ∧
      Done fetch root w (Id.run (crawl fetch root depth).run) := by
  rcases Run.eq_pure_or_eq_throw (fetch root) with ⟨body, hbody⟩ | ⟨e, he⟩
  · rw [crawl_of_answered hbody]
    have hcomes := (comesTo_explore (depth - 1) 1 rfl root body [] ⟨[root.text], []⟩).turn
      (.read (by simp) hbody : Turn fetch root depth (start root) _)
    rcases hcomes with ⟨known, hexplore, hturns⟩ | ⟨e, u, w, hexplore, hturns, hstuck⟩
    · exact ⟨_, hturns, by rw [hexplore]; exact .empty known⟩
    · have hother : u ≠ root := by
        rintro rfl
        exact Run.pure_ne_throw (hbody.symm.trans hstuck.failed)
      exact ⟨w, hturns, by rw [hexplore]; exact .failed hstuck fun hu => absurd hu hother⟩
  · have hstuck : Stuck fetch (start root) root e := .intro (by simp) he
    rcases missing_or_other e with ⟨f, rfl, hf⟩ | hother
    · refine ⟨_, .refl, ?_⟩
      rw [crawl_of_missing he hf]
      exact .missing hstuck hf
    · refine ⟨_, .refl, ?_⟩
      rw [crawl_of_failed he hother]
      exact .failed hstuck fun _ => hother

end Worklist
end Crawl
end Transclusion
