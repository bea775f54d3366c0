import Transclusion.Proofs.Values.Nodes
import Transclusion.Walk.Copy

/-!
# Copies in two stages

A copy can be made at once, or by a first copy and another one of what that gives.

* `Value.Apart.inner_includes` : a tree's includes, where they lie apart;
* `Run.Staged R` : `R` relates a run to a first one and one that goes on from it, and keeps to pairs;
* `replaceIncludes_staged` : a copy of a tree is so related if what is done to its includes is.
-/

namespace Transclusion

open Value (inner)

/-- The payloads of a tree's includes, where these lie apart, hold no others. -/
theorem Value.Apart.inner_includes {isIncludeTag : Tag → Bool} {v : Value} (hwf : v.WellFormed)
    (hapart : v.Apart isIncludeTag) :
    v.All inner fun n => ∀ t p, n = .tagged t p → isIncludeTag t = true →
      p.WellFormed ∧ p.FreeOf isIncludeTag := by
  rintro n hn t p rfl ht
  have hreach := Relation.ReflTransGen.mono (fun a _ hb => inner_subset_parts a hb) _ _ hn
  have hp : p ∈ (Value.tagged t p).parts := List.mem_cons_self
  exact ⟨fun k hk => hwf k (hreach.trans (.head hp hk)), (hapart _ hreach).2 ht p hp⟩

variable {m : Type → Type} [Monad m]

/-- A relation between one run, and a first run with what is done with its outcome, that holds of
values and of what is made of one part or of two. -/
structure Run.Staged (R : (α β : Type) → Run m α → Run m β → (β → Run m α) → Prop) : Prop where
  pure {α β : Type} {a : α} {b : β} {after : β → Run m α} (h : after b = Pure.pure a) :
    R α β (Pure.pure a) (Pure.pure b) after
  map {α β γ δ : Type} {once : Run m α} {first : Run m β} {after : β → Run m α} {after' : δ → Run m γ}
    {f : α → γ} {g : β → δ} (h : R α β once first after)
    (hafter : ∀ b, after' (g b) = do return f (← after b)) :
    R γ δ (do return f (← once)) (do return g (← first)) after'
  pair {α₁ α₂ β₁ β₂ γ δ : Type} {once₁ : Run m α₁} {once₂ : Run m α₂} {first₁ : Run m β₁}
    {first₂ : Run m β₂} {after₁ : β₁ → Run m α₁} {after₂ : β₂ → Run m α₂} {after : δ → Run m γ}
    {f : α₁ → α₂ → γ} {g : β₁ → β₂ → δ} (h₁ : R α₁ β₁ once₁ first₁ after₁)
    (h₂ : R α₂ β₂ once₂ first₂ after₂)
    (hafter : ∀ b₁ b₂, after (g b₁ b₂) = do let a₁ ← after₁ b₁; return f a₁ (← after₂ b₂)) :
    R γ δ (do let a₁ ← once₁; return f a₁ (← once₂)) (do let b₁ ← first₁; return g b₁ (← first₂)) after

section Copies
variable {R : (α β : Type) → Run m α → Run m β → (β → Run m α) → Prop} (hR : Run.Staged R)
variable {isIncludeTag : Tag → Bool} {once first after : Value → Run m Value}
include hR

theorem replaceInItems_staged {items : List Value}
    (h : ∀ v ∈ items, R _ _ (replaceIncludes isIncludeTag once v) (replaceIncludes isIncludeTag first v)
      (replaceIncludes isIncludeTag after)) :
    R _ _ (replaceInItems isIncludeTag once items) (replaceInItems isIncludeTag first items)
      (replaceInItems isIncludeTag after) := by
  induction items with
  | nil => exact hR.pure rfl
  | cons v rest ih =>
    rw [replaceInItems, replaceInItems]
    exact hR.pair (h v List.mem_cons_self) (ih fun w hw => h w (List.mem_cons_of_mem v hw)) fun _ _ => rfl

theorem replaceInEntries_staged {es : Entries}
    (h : ∀ e ∈ es, R _ _ (replaceIncludes isIncludeTag once e.2) (replaceIncludes isIncludeTag first e.2)
      (replaceIncludes isIncludeTag after)) :
    R _ _ (replaceInEntries isIncludeTag once es) (replaceInEntries isIncludeTag first es)
      (replaceInEntries isIncludeTag after) := by
  induction es with
  | nil => exact hR.pure rfl
  | cons e rest ih =>
    rw [replaceInEntries, replaceInEntries]
    exact hR.pair (h e List.mem_cons_self) (ih fun f hf => h f (List.mem_cons_of_mem e hf)) fun _ _ => rfl

/-- A copy is made in two stages if what is done to each of its includes is. -/
theorem replaceIncludes_staged {v : Value}
    (h : v.All inner fun n => ∀ t p, n = .tagged t p → isIncludeTag t = true →
      R _ _ (once p) (first p) (replaceIncludes isIncludeTag after)) :
    R _ _ (replaceIncludes isIncludeTag once v) (replaceIncludes isIncludeTag first v)
      (replaceIncludes isIncludeTag after) := by
  induction v using Value.inductionOn with
  | null => exact hR.pure rfl
  | bool b => exact hR.pure rfl
  | number n => exact hR.pure rfl
  | string s => exact hR.pure rfl
  | sequence items ih =>
    have hitems := (Value.all_inner_sequence items |>.mp h).2
    rw [replaceIncludes, replaceIncludes]
    refine hR.map (replaceInItems_staged hR fun v hv => ih v hv (hitems v hv)) fun ws => ?_
    rw [replaceIncludes]
  | mapping es ih =>
    have hes := (Value.all_inner_mapping es |>.mp h).2
    rw [replaceIncludes, replaceIncludes]
    refine hR.map (replaceInEntries_staged hR fun e he => (ih e he).2 (hes e he)) fun ws => ?_
    rw [replaceIncludes]
  | tagged t v ih =>
    obtain ⟨hnode, hv⟩ := Value.all_inner_tagged t v |>.mp h
    rw [replaceIncludes, replaceIncludes]
    by_cases ht : isIncludeTag t = true
    · rw [if_pos ht, if_pos ht]
      exact hnode t v rfl ht
    · rw [if_neg ht, if_neg ht]
      refine hR.map (ih hv) fun w => ?_
      rw [replaceIncludes, if_neg ht]

end Copies
end Transclusion
