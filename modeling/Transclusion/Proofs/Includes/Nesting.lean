import Transclusion.Proofs.Includes.Defaults
import Transclusion.Proofs.Values.Nodes

/-!
# The bound on nesting

A run that is not cut off for nesting is the same within any higher bound: nothing that a run does
takes a run that was cut off for a failure of another kind.

* `Run.Upto r r'` : `r` is cut off for nesting or is `r'`;
* `construct_upto`, `Includer.found_upto` and so on : what is made of such runs is such a run;
* `Includer.resolveAt_upto` : directives within a bound and within a higher one.
-/

namespace Transclusion

open Run

variable {α β : Type}

/-- The run is cut off for nesting, or else it is the other one. -/
def Run.Upto (r r' : Run Id α) : Prop := r = throw .nesting ∨ r' = r

namespace Run.Upto

variable {r r' : Run Id α} {f f' : α → Run Id β}

theorem refl (r : Run Id α) : Upto r r := .inr rfl

theorem eq_pure {a : α} (h : Upto r r') (hr : r = pure a) : r' = pure a := by
  rcases h with h | h
  · rw [h] at hr
    cases hr
  · rw [h, hr]

theorem eq_raise {c : Fault} (h : Upto r r') (hr : r = raise c) : r' = raise c := by
  rcases h with h | h
  · rw [h] at hr
    cases hr
  · rw [h, hr]

theorem bind (hr : Upto r r') (hf : ∀ a, Upto (f a) (f' a)) : Upto (r >>= f) (r' >>= f') := by
  rcases hr with rfl | rfl
  · exact .inl rfl
  · rcases eq_pure_or_eq_throw r' with ⟨a, rfl⟩ | ⟨e, rfl⟩
    · rw [pure_bind, pure_bind]
      exact hf a
    · exact .inr rfl

theorem orElseOn (hr : Upto r r') (other : Fault → Run Id α) :
    Upto (r.orElseOn other) (r'.orElseOn other) := by
  rcases hr with rfl | rfl
  · exact .inl rfl
  · exact refl _

end Run.Upto

namespace Seek

variable {k k' : Seek Id α} {f f' : α → Seek Id β}

theorem upto_bind (hk : Upto k.run k'.run) (hf : ∀ a, Upto (f a).run (f' a).run) :
    Upto (k >>= f).run (k' >>= f').run := by
  rw [ExceptT.run_bind, ExceptT.run_bind]
  refine hk.bind fun x => ?_
  cases x with
  | error q => exact .refl _
  | ok a => exact hf a

theorem upto_lift {r r' : Run Id α} (h : Upto r r') :
    Upto (liftM r : Seek Id α).run (liftM r' : Seek Id α).run := by
  rcases h with rfl | rfl
  · exact .inl rfl
  · exact .refl _

end Seek

/-! ## Trees -/

section Trees
variable {isIncludeTag : Tag → Bool} {handle handle' : Value → Run Id Value}

theorem construct_upto (h : ∀ p, Upto (handle p) (handle' p)) (v : Value) :
    Upto (construct isIncludeTag handle v) (construct isIncludeTag handle' v) := by
  induction v using Value.inductionOn with
  | null => exact .refl _
  | bool b => exact .refl _
  | number n => exact .refl _
  | string s => exact .refl _
  | sequence items ih =>
    rw [construct, construct]
    refine Upto.bind ?_ fun ws => .refl _
    induction items with
    | nil => exact .refl _
    | cons v rest ihrest =>
      rw [constructAll, constructAll]
      have hrest := ihrest fun w hw => ih w (List.mem_cons_of_mem v hw)
      exact (ih v List.mem_cons_self).bind fun w => hrest.bind fun ws => .refl _
  | mapping es ih =>
    rw [construct, construct]
    refine Upto.bind ?_ fun fs => .refl _
    induction es with
    | nil => exact .refl _
    | cons e rest ihrest =>
      rw [constructEntries, constructEntries]
      have he := ih e List.mem_cons_self
      have hrest := ihrest fun f hf => ih f (List.mem_cons_of_mem e hf)
      exact he.1.bind fun k => he.2.bind fun w => hrest.bind fun fs => .refl _
  | tagged t v ih =>
    rw [construct, construct]
    refine ih.bind fun w => ?_
    split
    · exact h w
    · exact .refl _

end Trees

namespace Includer

variable {I : Includer Id}

/-! ## Contents -/

section Texts
variable {resolve resolve' : Directive → Run Id Value} (h : ∀ d, Upto (resolve d) (resolve' d))
include h

theorem loadWith_upto (text : String) : Upto (I.loadWith resolve text) (I.loadWith resolve' text) := by
  refine (Upto.refl _).bind fun v => construct_upto (fun p => ?_) v
  refine (Upto.refl _).bind fun d => ?_
  split
  · exact h d
  · exact .refl _

theorem parseContentWith_upto (hl : I.loader = none) (path : String) (c : Content) :
    Upto (I.parseContentWith resolve path c) (I.parseContentWith resolve' path c) := by
  unfold parseContentWith
  rw [hl]
  exact ((Upto.refl _).bind fun text => loadWith_upto h text).orElseOn _

end Texts

/-! ## Directives -/

section Directives
variable {parse parse' : String → Content → Run Id Value} (h : ∀ path c, Upto (parse path c) (parse' path c))
include h

theorem gather_upto {γ : Type} (flatten : Bool) (openOne : γ → Seek Id Opened) (files : List γ) :
    Upto (gather flatten parse openOne files).run (gather flatten parse' openOne files).run := by
  induction files with
  | nil => exact .refl _
  | cons a rest ih =>
    rw [gather, gather]
    refine Seek.upto_bind (.refl _) fun file => Seek.upto_bind ?_ fun items => ?_
    · exact Seek.upto_lift ((h file.path file.content).bind fun v => .refl _)
    · exact Seek.upto_bind ih fun others => .refl _

theorem found_upto (d : Directive) (route : Route) (path : String) :
    Upto (I.found parse d route path).run (I.found parse' d route path).run := by
  unfold found
  cases route with
  | remoteGlob =>
    refine Seek.upto_bind (.refl _) fun files => ?_
    exact Seek.upto_bind (gather_upto h _ _ _) fun vs => .refl _
  | localGlob =>
    refine Seek.upto_bind (.refl _) fun plan => Seek.upto_bind (.refl _) fun paths => ?_
    exact Seek.upto_bind (gather_upto h _ _ _) fun vs => .refl _
  | remoteSingle | localSingle =>
    exact Seek.upto_bind (.refl _) fun file => Seek.upto_lift (h _ _)

theorem resolveWith_upto (d : Directive) : Upto (I.resolveWith parse d) (I.resolveWith parse' d) := by
  rw [resolveWith_eq, resolveWith_eq]
  refine (found_upto h d _ _).bind fun x => ?_
  cases x with
  | ok v => exact .refl _
  | error q =>
    dsimp only
    split
    · rename_i v hv
      unfold defaultValue
      split
      · exact (h _ _).orElseOn _
      · exact .refl _
    · exact .refl _

end Directives

/-! ## However deep -/

/-- A directive that is not cut off within a bound has the same value within a higher one. -/
theorem resolveAt_upto (hl : I.loader = none) {left left' : Nat} (hle : left ≤ left') (d : Directive) :
    Upto (I.resolveAt left d) (I.resolveAt left' d) := by
  induction left generalizing left' d with
  | zero => exact .inl rfl
  | succ left ih =>
    obtain ⟨left', rfl⟩ : ∃ n, left' = n + 1 := ⟨left' - 1, by omega⟩
    exact resolveWith_upto (parseContentWith_upto (ih (by omega)) hl) d

end Includer
end Transclusion
