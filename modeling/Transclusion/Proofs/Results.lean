/-!
# Results that may be failures

* `exists_of_bind_eq_ok`, `forall_error_bind` : what one step after another gives, and what it fails with;
* `mapM_cons_eq_ok`, `forall_mem_of_mapM_eq_ok`, `forall_error_mapM` : the same step for each item of a list.
-/

namespace Transclusion

section
variable {ε α β : Type} {x : Except ε α} {f : α → Except ε β} {a : α} {b : β} {l : List α} {bs : List β}

theorem toOption_eq_some_iff : x.toOption = some a ↔ x = .ok a := by
  cases x with
  | error e => simp [Except.toOption]
  | ok b => simp [Except.toOption]

theorem exists_of_bind_eq_ok (h : x >>= f = .ok b) : ∃ a, x = .ok a ∧ f a = .ok b := by
  cases x with
  | error e => cases h
  | ok a => exact ⟨a, rfl, h⟩

theorem forall_error_bind {P : ε → Prop} (hx : ∀ c, x = .error c → P c) (hf : ∀ a c, f a = .error c → P c) :
    ∀ c, x >>= f = .error c → P c := by
  intro c h
  cases x with
  | error c' =>
    cases h
    exact hx c rfl
  | ok a => exact hf a c h

theorem mapM_cons_eq_ok : (a :: l).mapM f = .ok bs ↔ ∃ b cs, f a = .ok b ∧ l.mapM f = .ok cs ∧ bs = b :: cs := by
  rw [List.mapM_cons]
  constructor
  · intro h
    obtain ⟨b, hb, h⟩ := exists_of_bind_eq_ok h
    obtain ⟨cs, hcs, h⟩ := exists_of_bind_eq_ok h
    cases h
    exact ⟨b, cs, hb, hcs, rfl⟩
  · rintro ⟨b, cs, hb, hcs, rfl⟩
    rw [hb, hcs]
    rfl

theorem forall_mem_of_mapM_eq_ok {Q : β → Prop} (h : ∀ a b, f a = .ok b → Q b) (hbs : l.mapM f = .ok bs) :
    ∀ b ∈ bs, Q b := by
  induction l generalizing bs with
  | nil =>
    cases hbs
    simp
  | cons a rest ih =>
    obtain ⟨b, cs, hb, hcs, rfl⟩ := mapM_cons_eq_ok.mp hbs
    exact List.forall_mem_cons.mpr ⟨h a b hb, ih hcs⟩

theorem forall_error_mapM {P : ε → Prop} (h : ∀ a ∈ l, ∀ c, f a = .error c → P c) :
    ∀ c, l.mapM f = .error c → P c := by
  induction l with
  | nil => exact fun c hc => by cases hc
  | cons a rest ih =>
    obtain ⟨ha, hrest⟩ := List.forall_mem_cons.mp h
    rw [List.mapM_cons]
    refine forall_error_bind ha fun b => ?_
    exact forall_error_bind (ih hrest) fun bs c hc => by cases hc

end

end Transclusion
