import Transclusion.Proofs.Resolution
import Transclusion.Proofs.Walks.InPlace

/-!
# What is left of the includes

* `Includer.walkWithin_settled` : a walk leaves a tree without includes outside keys as it is;
* `replaceIncludes_always` : a copy is such a tree if all that replaces an include is;
* `Includer.resolution_complete` : neither loading nor a nested walk leaves an include behind.
-/

namespace Transclusion

open Run

/-! ## Trees without includes -/

section Settled
variable {m : Type → Type} [Monad m] [LawfulMonad m]

theorem Includer.walkWithin_settled (I : Includer m) (nested : Bool) (levels : Nat) {v : Value}
    (h : v.Settled I.isInclude) : I.walkWithin nested levels v = pure v := by
  unfold Includer.walkWithin
  cases levels with
  | zero => exact replaceIncludes_settled h
  | succ levels => exact replaceIncludes_settled h

end Settled

/-! ## Copies without includes -/

variable {σ : Type}

section Copies
variable {isIncludeTag : Tag → Bool} {handle : Value → Run (StateM σ) Value}

theorem replaceIncludes_always (h : ∀ p, Always (·.Settled isIncludeTag) (handle p)) (v : Value) :
    Always (·.Settled isIncludeTag) (replaceIncludes isIncludeTag handle v) := by
  unfold Value.Settled at h ⊢
  induction v using Value.inductionOn with
  | null => exact Always.pure (Value.all_inner_null.mpr rfl)
  | bool b => exact Always.pure (Value.all_inner_bool b |>.mpr rfl)
  | number n => exact Always.pure (Value.all_inner_number n |>.mpr rfl)
  | string s => exact Always.pure (Value.all_inner_string s |>.mpr rfl)
  | sequence items ih =>
    rw [replaceIncludes]
    refine Always.bind (P := fun ws => ∀ w ∈ ws, w.Settled isIncludeTag) ?_ fun ws hws =>
      Always.pure (Value.all_inner_sequence ws |>.mpr ⟨rfl, hws⟩)
    induction items with
    | nil => exact Always.pure (by simp)
    | cons v rest ihrest =>
      rw [replaceInItems]
      refine (ih v List.mem_cons_self).bind fun w hw => ?_
      refine (ihrest fun u hu => ih u (List.mem_cons_of_mem v hu)).bind fun ws hws => ?_
      exact Always.pure (List.forall_mem_cons.mpr ⟨hw, hws⟩)
  | mapping es ih =>
    rw [replaceIncludes]
    refine Always.bind (P := fun fs => ∀ e ∈ fs, e.2.Settled isIncludeTag) ?_ fun fs hfs =>
      Always.pure (Value.all_inner_mapping fs |>.mpr ⟨rfl, hfs⟩)
    induction es with
    | nil => exact Always.pure (by simp)
    | cons e rest ihrest =>
      rw [replaceInEntries]
      refine (ih e List.mem_cons_self).2.bind fun w hw => ?_
      refine (ihrest fun f hf => ih f (List.mem_cons_of_mem e hf)).bind fun fs hfs => ?_
      exact Always.pure (List.forall_mem_cons.mpr ⟨hw, hfs⟩)
  | tagged t v ih =>
    rw [replaceIncludes]
    split
    · exact h v
    · rename_i ht
      refine ih.bind fun w hw => Always.pure ?_
      exact Value.all_inner_tagged t w |>.mpr ⟨Bool.eq_false_iff.mpr ht, hw⟩

end Copies

/-! ## Loading and walking -/

namespace Includer

/-- A nested walk goes on until nothing is left. -/
theorem walkWithin_always (I : Includer (StateM σ)) (levels : Nat) (v : Value) :
    Always (·.Settled I.isInclude) (I.walkWithin true levels v) := by
  induction levels generalizing v with
  | zero => exact replaceIncludes_always (fun _ => Always.throw _) v
  | succ levels ih =>
    exact replaceIncludes_always (fun _ => Always.bind_any fun d => Always.bind_any fun w => ih w) v

/-- **Nothing that is loaded holds an include anywhere, and nothing that a nested walk gives holds one
outside keys, so that another walk leaves it as it is.** -/
theorem resolution_complete (I : Includer (StateM σ)) :
    (I.autoload = true → I.HasOwnLoader → ∀ text, Always (·.FreeOf I.isInclude) (I.load text)) ∧
      ∀ v, Always (fun w => w.Settled I.isInclude ∧ ∀ nested, I.walk nested w = pure w)
        (I.walk true v) := by
  constructor
  · intro ha hl text
    exact (follows_notInclude ha hl).load text
  · intro v s w s' h
    have hw := I.walkWithin_always (I.nesting + 1) v s w s' h
    exact ⟨hw, fun nested => I.walkWithin_settled nested _ hw⟩

/-- The include of an empty file, loaded and walked. -/
theorem resolution_complete_of_file :
    ((Memory.noting [("a", "")]).load "!inc a").Returns [] .null [.openOne "a" {}] ∧
      Value.null.FreeOf (Memory.noting [("a", "")]).isInclude ∧
      ((Memory.noting [("a", "")]).walk true (.sequence [.tagged includeTag (.string "a")])).Returns []
        (.sequence [.null]) [.openOne "a" {}] ∧
      (Memory.noting [("a", "")]).walk false (.sequence [.null]) = pure (.sequence [.null]) := by
  have hload : ((Memory.noting [("a", "")]).load "!inc a").Returns [] .null [.openOne "a" {}] := by
    unfold Includer.load loadWith
    rw [Value.ofYaml_include]
    rfl
  have hwalk : ((Memory.noting [("a", "")]).walk true
      (.sequence [.tagged includeTag (.string "a")])).Returns [] (.sequence [.null]) [.openOne "a" {}] := by
    rfl
  refine ⟨hload, ?_, hwalk, ?_⟩
  · exact (resolution_complete _).1 rfl (.inl rfl) "!inc a" _ _ _ hload
  · exact ((resolution_complete _).2 _ _ _ _ hwalk).2 false

end Includer
end Transclusion
