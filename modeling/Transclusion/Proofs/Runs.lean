import Transclusion.Includer.Basic
import Transclusion.Memory

/-!
# Runs over a state

A backend and a base directory may keep anything from one call to the next: what they were asked so
far, what they answer with next. All of it is the state `σ` of a run in `StateM σ`. With a backend
that notes its calls (`Backend.logged`) these are part of the state, so that runs which leave the
same state, whatever `σ` is, have made the same calls in the same order.

* `Run.Returns r s a s'` : from the state `s` the run gives `a` and leaves the state `s'`;
* `Run.Always P r` : whatever the run gives, from any state, is as `P` says;
* `Run.Still r` : the run has no effects;
* `Seek.Always P k` : the same for what is found at a target;
* `Seek.returns_bind`, `Seek.returns_own_ofExcept` : what is found step by step, and what is missing;
* `Run.Ends r s x s'` : the run ends with a value or a failure, as every run does;
* `Run.bind_eq_pure_iff`, `Seek.bind_run_eq_missing_iff` : runs over `Id`, where nothing changes;
* `Run.Like r' r` : the run ends as one over `Id` does;
* `Memory.noting` : an includer of files in memory whose state is the list of its calls.
-/

namespace Transclusion

variable {σ α β : Type}

namespace Run

/-! ## What a run gives -/

/-- From the state `s` the run gives `a`, and leaves the state `s'`. -/
def Returns (r : Run (StateM σ) α) (s : σ) (a : α) (s' : σ) : Prop := (r.run.run s).run = (.ok a, s')

variable {r : Run (StateM σ) α} {f : α → Run (StateM σ) β} {s s' : σ} {a a' : α} {b : β}

theorem returns_pure : Returns (pure a) s a' s' ↔ a = a' ∧ s = s' := by
  unfold Returns
  rw [ExceptT.run_pure, StateT.run_pure]
  simp

theorem returns_bind : Returns (r >>= f) s b s' ↔ ∃ a s₁, Returns r s a s₁ ∧ Returns (f a) s₁ b s' := by
  unfold Returns
  rw [ExceptT.run_bind, StateT.run_bind, Id.run_bind]
  rcases (r.run.run s).run with ⟨e | a, s₁⟩
  · simp
  · constructor
    · intro h
      exact ⟨a, s₁, rfl, h⟩
    · rintro ⟨a', s₂, heq, h⟩
      cases heq
      exact h

theorem returns_map {g : α → β} :
    Returns (do return g (← r)) s b s' ↔ ∃ a, Returns r s a s' ∧ g a = b := by
  constructor
  · intro h
    obtain ⟨a, s₁, ha, hb⟩ := returns_bind.mp h
    obtain ⟨rfl, rfl⟩ := returns_pure.mp hb
    exact ⟨a, ha, rfl⟩
  · rintro ⟨a, ha, rfl⟩
    exact returns_bind.mpr ⟨a, s', ha, returns_pure.mpr ⟨rfl, rfl⟩⟩

/-! ### One thing after the other -/

section MapM
variable {g : α → Run (StateM σ) β} {as as' : List α} {bs bs' : List β} {s₁ : σ}

theorem returns_mapM_nil : ([].mapM g).Returns s bs s' ↔ bs = [] ∧ s = s' := by
  rw [List.mapM_nil, returns_pure]
  exact and_congr_left fun _ => eq_comm

theorem returns_mapM_cons : ((a :: as).mapM g).Returns s bs s' ↔
    ∃ b s₁ cs, (g a).Returns s b s₁ ∧ (as.mapM g).Returns s₁ cs s' ∧ bs = b :: cs := by
  rw [List.mapM_cons]
  constructor
  · intro h
    obtain ⟨b, s₁, hb, h⟩ := returns_bind.mp h
    obtain ⟨cs, hcs, rfl⟩ := returns_map.mp h
    exact ⟨b, s₁, cs, hb, hcs, rfl⟩
  · rintro ⟨b, s₁, cs, hb, hcs, rfl⟩
    exact returns_bind.mpr ⟨b, s₁, hb, returns_map.mpr ⟨cs, hcs, rfl⟩⟩

theorem returns_mapM_append (h : (as.mapM g).Returns s bs s₁) (h' : (as'.mapM g).Returns s₁ bs' s') :
    ((as ++ as').mapM g).Returns s (bs ++ bs') s' := by
  rw [List.mapM_append]
  exact returns_bind.mpr ⟨bs, s₁, h, returns_map.mpr ⟨bs', h', rfl⟩⟩

theorem length_of_returns_mapM (h : (as.mapM g).Returns s bs s') : bs.length = as.length := by
  induction as generalizing s bs with
  | nil =>
    obtain ⟨rfl, -⟩ := returns_mapM_nil.mp h
    rfl
  | cons a as ih =>
    obtain ⟨b, s₁, cs, -, hcs, rfl⟩ := returns_mapM_cons.mp h
    rw [List.length_cons, List.length_cons, ih hcs]

end MapM

theorem Returns.unique {s'' : σ} (h : Returns r s a s') (h' : Returns r s a' s'') : a = a' ∧ s' = s'' := by
  cases h.symm.trans h'
  exact ⟨rfl, rfl⟩

theorem not_returns_throw {e : Failure} : ¬ Returns (throw e : Run (StateM σ) α) s a s' := by
  unfold Returns
  rw [ExceptT.run_throw, StateT.run_pure]
  simp

theorem not_returns_raise {e : Fault} : ¬ Returns (raise e : Run (StateM σ) α) s a s' :=
  not_returns_throw

theorem returns_ofExcept {x : Except Fault α} :
    Returns (ofExcept x) s a s' ↔ x = .ok a ∧ s = s' := by
  cases x with
  | error e => simp [ofExcept, not_returns_raise]
  | ok a => simp [ofExcept, returns_pure]

/-- What is given in the end comes from the run itself, or from the other one after a fault. -/
theorem Returns.of_orElseOn {other : Fault → Run (StateM σ) α} (h : Returns (orElseOn r other) s a s') :
    Returns r s a s' ∨ ∃ e s₁, Returns (other e) s₁ a s' := by
  unfold orElseOn Returns at h
  rw [ExceptT.run_tryCatch, StateT.run_bind, Id.run_bind] at h
  unfold Returns
  revert h
  rcases (r.run.run s).run with ⟨e | a', s₁⟩
  · intro h
    right
    cases e with
    | fault e => exact ⟨e, s₁, h⟩
    | nesting => exact absurd h not_returns_throw
    | timeoutOverflow => exact absurd h not_returns_throw
  · intro h
    left
    exact h

/-! ## What holds of whatever a run gives -/

/-- Whatever the run gives, from any state, is as `P` says. -/
def Always (P : α → Prop) (r : Run (StateM σ) α) : Prop := ∀ s a s', Returns r s a s' → P a

variable {P : α → Prop} {Q : β → Prop}

theorem Always.pure (h : P a) : Always (σ := σ) P (pure a) := by
  intro s a' s' hr
  obtain ⟨rfl, -⟩ := returns_pure.mp hr
  exact h

theorem Always.bind (hr : Always P r) (hf : ∀ a, P a → Always Q (f a)) : Always Q (r >>= f) := by
  intro s b s' h
  obtain ⟨a, s₁, ha, hb⟩ := returns_bind.mp h
  exact hf a (hr s a s₁ ha) s₁ b s' hb

theorem Always.bind_any (hf : ∀ a, Always Q (f a)) : Always Q (r >>= f) :=
  Always.bind (P := fun _ => True) (fun _ _ _ _ => trivial) fun a _ => hf a

theorem Always.throw (e : Failure) : Always P (throw e : Run (StateM σ) α) :=
  fun _ _ _ h => absurd h not_returns_throw

theorem Always.raise (e : Fault) : Always P (raise e : Run (StateM σ) α) := Always.throw _

theorem Always.ofExcept {x : Except Fault α} (h : ∀ a, x = .ok a → P a) :
    Always P (ofExcept x : Run (StateM σ) α) :=
  fun _ a _ hr => h a (returns_ofExcept.mp hr).1

theorem Always.orElseOn {other : Fault → Run (StateM σ) α} (hr : Always P r)
    (ho : ∀ e, Always P (other e)) : Always P (orElseOn r other) := by
  intro s a s' h
  rcases h.of_orElseOn with h | ⟨e, s₁, h⟩
  · exact hr s a s' h
  · exact ho e s₁ a s' h

theorem Always.mapFault (g : Fault → Fault) (hr : Always P r) : Always P (mapFault g r) :=
  hr.orElseOn fun _ => Always.raise _

/-! ## Runs without effects -/

def Still {m : Type → Type} [Monad m] (r : Run m α) : Prop := ∃ x : Except Fault α, r = Run.ofExcept x

section Still
variable {m : Type → Type} [Monad m]

theorem Still.pure (a : α) : Still (pure a : Run m α) := ⟨.ok a, rfl⟩

theorem Still.ofExcept (x : Except Fault α) : Still (ofExcept x : Run m α) := ⟨x, rfl⟩

theorem raise_bind [LawfulMonad m] (e : Fault) (f : α → Run m β) : (raise e >>= f) = raise e := by
  apply ExceptT.ext
  rw [ExceptT.run_bind]
  unfold raise
  rw [ExceptT.run_throw, pure_bind]
  rfl

theorem ofExcept_bind [LawfulMonad m] (x : Except Fault α) (f : α → Except Fault β) :
    (ofExcept (x.bind f) : Run m β) = ofExcept x >>= fun a => ofExcept (f a) := by
  cases x with
  | error e => exact (raise_bind e _).symm
  | ok a =>
    change ofExcept (f a) = (pure a : Run m α) >>= fun a => ofExcept (f a)
    rw [pure_bind]

theorem mapM_ofExcept [LawfulMonad m] (f : α → Except Fault β) (as : List α) :
    (as.mapM fun a => (ofExcept (f a) : Run m β)) = ofExcept (as.mapM f) := by
  induction as with
  | nil => rfl
  | cons a as ih =>
    rw [List.mapM_cons, List.mapM_cons, ih]
    cases f a with
    | error e => exact raise_bind e _
    | ok b =>
      cases as.mapM f with
      | error e => exact (pure_bind b _).trans (raise_bind e _)
      | ok bs => exact (pure_bind b _).trans (pure_bind bs _)

theorem orElseOn_pure [LawfulMonad m] (a : α) (other : Fault → Run m α) :
    (pure a : Run m α).orElseOn other = pure a := by
  apply ExceptT.ext
  simp [orElseOn, ExceptT.run_tryCatch]

theorem Still.bind [LawfulMonad m] {r : Run m α} {f : α → Run m β} (hr : r.Still)
    (hf : ∀ a, (f a).Still) : (r >>= f).Still := by
  obtain ⟨x, rfl⟩ := hr
  cases x with
  | error e => exact ⟨.error e, raise_bind e f⟩
  | ok a =>
    unfold Run.ofExcept
    rw [pure_bind]
    exact hf a

end Still

/-- What a run without effects gives, it gives anywhere. -/
theorem Still.returns (hr : r.Still) (h : Returns r s a s') : s = s' ∧ ∀ t, Returns r t a t := by
  obtain ⟨x, rfl⟩ := hr
  obtain ⟨rfl, rfl⟩ := returns_ofExcept.mp h
  exact ⟨rfl, fun t => returns_ofExcept.mpr ⟨rfl, rfl⟩⟩

end Run

/-! ## Looking for a target -/

namespace Seek

def Always (P : α → Prop) (k : Seek (StateM σ) α) : Prop :=
  Run.Always (fun x => ∀ a, x = .ok a → P a) (ExceptT.run k)

variable {P : α → Prop} {Q : β → Prop} {k : Seek (StateM σ) α} {f : α → Seek (StateM σ) β}

theorem Always.pure {a : α} (h : P a) : Always (σ := σ) P (pure a) := by
  unfold Always
  rw [ExceptT.run_pure]
  exact Run.Always.pure fun _ ha => by cases ha; exact h

theorem Always.bind (hk : Always P k) (hf : ∀ a, P a → Always Q (f a)) : Always Q (k >>= f) := by
  unfold Always
  rw [ExceptT.run_bind]
  refine Run.Always.bind hk fun x hx => ?_
  cases x with
  | error e => exact Run.Always.pure fun _ hb => by cases hb
  | ok a => exact hf a (hx a rfl)

theorem Always.bind_any (hf : ∀ a, Always Q (f a)) : Always Q (k >>= f) :=
  Always.bind (P := fun _ => True) (fun _ _ _ _ _ _ => trivial) fun a _ => hf a

theorem Always.lift {r : Run (StateM σ) α} (h : Run.Always P r) :
    Always P (liftM r : Seek (StateM σ) α) := by
  unfold Always
  change Run.Always _ (ExceptT.lift r).run
  rw [ExceptT.run_lift, ← bind_pure_comp]
  exact h.bind fun a ha => Run.Always.pure fun b hb => by cases hb; exact ha

end Seek

/-! ## How a run ends -/

namespace Run

/-- From the state `s` the run ends with a value or a failure, and leaves the state `s'`. -/
def Ends (r : Run (StateM σ) α) (s : σ) (x : Except Failure α) (s' : σ) : Prop :=
  (r.run.run s).run = (x, s')

variable {r : Run (StateM σ) α} {f : α → Run (StateM σ) β} {s s₁ s' : σ} {a : α}
  {x : Except Failure α} {y : Except Failure β} {e : Failure}

theorem exists_ends (r : Run (StateM σ) α) (s : σ) : ∃ x s', r.Ends s x s' := ⟨_, _, rfl⟩

theorem Ends.pure (a : α) (s : σ) : (pure a : Run (StateM σ) α).Ends s (.ok a) s := rfl

theorem Ends.throw (e : Failure) (s : σ) : (throw e : Run (StateM σ) α).Ends s (.error e) s := rfl

theorem Ends.bind (hr : r.Ends s (.ok a) s₁) (hf : (f a).Ends s₁ y s') : (r >>= f).Ends s y s' := by
  unfold Ends at hr hf ⊢
  rw [ExceptT.run_bind, StateT.run_bind, Id.run_bind, hr]
  exact hf

theorem Ends.bind_error (hr : r.Ends s (.error e) s') : (r >>= f).Ends s (.error e) s' := by
  unfold Ends at hr ⊢
  rw [ExceptT.run_bind, StateT.run_bind, Id.run_bind, hr]
  rfl

/-- Asking for something that cannot fail. -/
theorem Ends.lift (c : StateM σ α) (s : σ) :
    (liftM c : Run (StateM σ) α).Ends s (.ok (c.run s).run.1) (c.run s).run.2 := rfl

theorem Ends.orElseOn_ok {other : Fault → Run (StateM σ) α} (hr : r.Ends s (.ok a) s') :
    (r.orElseOn other).Ends s (.ok a) s' := by
  unfold Ends orElseOn at *
  rw [ExceptT.run_tryCatch, StateT.run_bind, Id.run_bind, hr]
  rfl

theorem Ends.orElseOn_fault {other : Fault → Run (StateM σ) α} {f : Fault} (hr : r.Ends s (.error (.fault f)) s₁)
    (ho : (other f).Ends s₁ x s') : (r.orElseOn other).Ends s x s' := by
  unfold Ends orElseOn at *
  rw [ExceptT.run_tryCatch, StateT.run_bind, Id.run_bind, hr]
  exact ho

theorem Ends.orElseOn_cut {other : Fault → Run (StateM σ) α} (hr : r.Ends s (.error e) s')
    (he : ∀ f, e ≠ .fault f) : (r.orElseOn other).Ends s (.error e) s' := by
  unfold Ends orElseOn at *
  rw [ExceptT.run_tryCatch, StateT.run_bind, Id.run_bind, hr]
  cases e with
  | fault f => exact absurd rfl (he f)
  | nesting => rfl
  | timeoutOverflow => rfl

theorem Ends.answer_cut (hr : r.Ends s (.error e) s') (he : ∀ f, e ≠ .fault f) : r.answer.Ends s (.error e) s' := by
  have hbind : (do return .ok (← r) : Run (StateM σ) (Except Fault α)).Ends s (.error e) s' := hr.bind_error
  unfold Ends answer at *
  rw [ExceptT.run_tryCatch, StateT.run_bind, Id.run_bind, hbind]
  cases e with
  | fault f => exact absurd rfl (he f)
  | nesting => rfl
  | timeoutOverflow => rfl

/-! ### Failures -/

theorem Ends.unique {x' : Except Failure α} {s'' : σ} (h : r.Ends s x s') (h' : r.Ends s x' s'') :
    x = x' ∧ s' = s'' :=
  Prod.mk.inj (h.symm.trans h')

/-- What comes after a value comes after nothing else. -/
theorem ends_bind_iff (hr : r.Ends s (.ok a) s₁) : (r >>= f).Ends s y s' ↔ (f a).Ends s₁ y s' := by
  unfold Ends at hr ⊢
  rw [ExceptT.run_bind, StateT.run_bind, Id.run_bind, hr]

/-- How a run ends is known if one of the ways is found that are known of. -/
theorem ends_iff_of_exists {P : Except Failure α → σ → Prop} (hends : ∀ x s', P x s' → r.Ends s x s')
    (hexists : ∃ x s', P x s') : r.Ends s x s' ↔ P x s' := by
  refine ⟨fun h => ?_, hends x s'⟩
  obtain ⟨y, t, hy⟩ := hexists
  obtain ⟨rfl, rfl⟩ := h.unique (hends y t hy)
  exact hy

theorem not_ends_error_pure : ¬ (Pure.pure a : Run (StateM σ) α).Ends s (.error e) s' := by
  intro h
  cases h

theorem ends_error_throw {e' : Failure} :
    (MonadExcept.throw e' : Run (StateM σ) α).Ends s (.error e) s' ↔ e' = e ∧ s = s' := by
  constructor
  · intro h
    cases h
    exact ⟨rfl, rfl⟩
  · rintro ⟨rfl, rfl⟩
    rfl

theorem ends_error_bind : (r >>= f).Ends s (.error e) s' ↔
    r.Ends s (.error e) s' ∨ ∃ a s₁, r.Returns s a s₁ ∧ (f a).Ends s₁ (.error e) s' := by
  obtain ⟨x, s₁, hr⟩ := exists_ends r s
  cases x with
  | error e' =>
    have hbind : (r >>= f).Ends s (.error e') s₁ := hr.bind_error
    constructor
    · intro h
      obtain ⟨he, rfl⟩ := hbind.unique h
      cases he
      exact .inl hr
    · rintro (h | ⟨a, s₂, h, -⟩)
      · exact h.bind_error
      · cases (hr.unique h).1
  | ok a =>
    constructor
    · intro h
      obtain ⟨y, s₂, hy⟩ := exists_ends (f a) s₁
      obtain ⟨rfl, rfl⟩ := (hr.bind hy).unique h
      exact .inr ⟨a, s₁, hr, hy⟩
    · rintro (h | ⟨a', s₂, h, hf⟩)
      · cases (hr.unique h).1
      · exact Ends.bind h hf

theorem ends_error_map {g : α → β} :
    (do return g (← r) : Run (StateM σ) β).Ends s (.error e) s' ↔ r.Ends s (.error e) s' := by
  rw [ends_error_bind]
  constructor
  · rintro (h | ⟨a, s₁, -, h⟩)
    · exact h
    · exact absurd h not_ends_error_pure
  · exact .inl

theorem ends_error_ofExcept {x : Except Fault α} :
    (ofExcept x : Run (StateM σ) α).Ends s (.error e) s' ↔ ∃ g, x = .error g ∧ .fault g = e ∧ s = s' := by
  cases x with
  | ok a => simp [ofExcept, not_ends_error_pure]
  | error g =>
    unfold ofExcept raise
    rw [ends_error_throw]
    simp

/-- A fault that is told in another way was there before. -/
theorem ends_fault_mapFault {g : Fault → Fault} {c : Fault} :
    (r.mapFault g).Ends s (.error (.fault c)) s' ↔
      ∃ c', r.Ends s (.error (.fault c')) s' ∧ g c' = c := by
  unfold mapFault
  constructor
  · intro h
    obtain ⟨x, s₁, hr⟩ := exists_ends r s
    rcases x with (c' | _ | _) | a
    · obtain ⟨hc, rfl⟩ := (hr.orElseOn_fault (Ends.throw _ _)).unique h
      cases hc
      exact ⟨c', hr, rfl⟩
    · cases ((hr.orElseOn_cut nofun).unique h).1
    · cases ((hr.orElseOn_cut nofun).unique h).1
    · cases (hr.orElseOn_ok.unique h).1
  · rintro ⟨c', hr, rfl⟩
    exact hr.orElseOn_fault (Ends.throw _ _)

/-! ### Which faults a run ends with -/

def Faults (P : Fault → Prop) (r : Run (StateM σ) α) : Prop :=
  ∀ s c s', r.Ends s (.error (.fault c)) s' → P c

variable {P : Fault → Prop} {Q : α → Prop}

theorem Faults.pure (a : α) : Faults (σ := σ) P (Pure.pure a) :=
  fun _ _ _ h => absurd h not_ends_error_pure

theorem Faults.throw (h : ∀ c, e = .fault c → P c) : Faults P (MonadExcept.throw e : Run (StateM σ) α) :=
  fun _ c _ hc => h c (ends_error_throw.mp hc).1

theorem Faults.raise {c : Fault} (h : P c) : Faults P (Run.raise c : Run (StateM σ) α) :=
  Faults.throw fun c' hc => by cases hc; exact h

theorem Faults.ofExcept {x : Except Fault α} (h : ∀ c, x = .error c → P c) :
    Faults P (Run.ofExcept x : Run (StateM σ) α) := by
  intro s c s' hc
  obtain ⟨g, hx, hg, -⟩ := ends_error_ofExcept.mp hc
  cases hg
  exact h _ hx

theorem Faults.lift (c : StateM σ α) : Faults P (liftM c : Run (StateM σ) α) := by
  intro s g s' h
  cases ((Ends.lift c s).unique h).1

theorem Faults.bind (hr : Faults P r) (hQ : Always Q r) (hf : ∀ a, Q a → Faults P (f a)) :
    Faults P (r >>= f) := by
  intro s c s' h
  rcases ends_error_bind.mp h with h | ⟨a, s₁, ha, h⟩
  · exact hr s c s' h
  · exact hf a (hQ s a s₁ ha) s₁ c s' h

/-- Nothing need be known of what goes in. -/
theorem Faults.bind_any (hr : Faults P r) (hf : ∀ a, Faults P (f a)) : Faults P (r >>= f) :=
  hr.bind (Q := fun _ => True) (fun _ _ _ _ => trivial) fun a _ => hf a

theorem Faults.mapFault {g : Fault → Fault} (h : ∀ c, P (g c)) : Faults P (r.mapFault g) := by
  intro s c s' hc
  obtain ⟨c', -, rfl⟩ := ends_fault_mapFault.mp hc
  exact h c'

theorem Faults.orElseOn {other : Fault → Run (StateM σ) α} (h : ∀ c, Faults P (other c)) :
    Faults P (r.orElseOn other) := by
  intro s c s' hc
  obtain ⟨x, s₁, hr⟩ := exists_ends r s
  rcases x with (c' | _ | _) | a
  · obtain ⟨y, s₂, hy⟩ := exists_ends (other c') s₁
    obtain ⟨rfl, rfl⟩ := (hr.orElseOn_fault hy).unique hc
    exact h c' s₁ c s₂ hy
  · cases ((hr.orElseOn_cut nofun).unique hc).1
  · cases ((hr.orElseOn_cut nofun).unique hc).1
  · cases (hr.orElseOn_ok.unique hc).1

end Run

namespace Seek

variable {k : Seek (StateM σ) α} {r : Run (StateM σ) α} {f : α → Seek (StateM σ) β} {s s₁ s' : σ}
  {a : α} {e : Failure} {z : Except Failure (Except Missing β)}

theorem ends_bind (hk : k.run.Ends s (.ok (.ok a)) s₁) (hf : (f a).run.Ends s₁ z s') :
    (k >>= f).run.Ends s z s' := by
  rw [ExceptT.run_bind]
  exact hk.bind hf

theorem ends_own (hr : r.Ends s (.ok a) s') : (own r).run.Ends s (.ok (.ok a)) s' := by
  unfold Run.Ends own at *
  rw [ExceptT.run_mk, ExceptT.run_tryCatch, StateT.run_bind, Id.run_bind, ExceptT.run_bind,
    StateT.run_bind, Id.run_bind, hr]
  rfl

/-- A failed access ends the search: the target is missing, or the failure stays. -/
theorem ends_own_error (hr : r.Ends s (.error e) s') : ∃ z, (own r >>= f).run.Ends s z s' ∧
    ∀ q : Missing, z = .ok (.error q) ↔ e = .fault (.notFound q.path) := by
  rw [ExceptT.run_bind]
  have hown : ∃ y, (own r).run.Ends s y s' ∧ (∀ a, y ≠ .ok (.ok a)) ∧
      ∀ q : Missing, y = .ok (.error q) ↔ e = .fault (.notFound q.path) := by
    unfold Run.Ends own at *
    rw [ExceptT.run_mk, ExceptT.run_tryCatch, StateT.run_bind, Id.run_bind, ExceptT.run_bind,
      StateT.run_bind, Id.run_bind, hr]
    cases e with
    | fault f => cases f <;> exact ⟨_, rfl, by simp, fun ⟨path⟩ => by simp⟩
    | nesting => exact ⟨_, rfl, by simp, by simp⟩
    | timeoutOverflow => exact ⟨_, rfl, by simp, by simp⟩
  obtain ⟨y, hy, hne, hmissing⟩ := hown
  rcases y with e | q | a
  · exact ⟨_, hy.bind_error, by simpa using hmissing⟩
  · exact ⟨_, hy.bind (Run.Ends.pure _ _), by simpa using hmissing⟩
  · exact absurd rfl (hne a)

theorem run_lift (r : Run (StateM σ) α) : (liftM r : Seek (StateM σ) α).run = do return .ok (← r) := by
  rw [bind_pure_comp]
  rfl

theorem ends_lift (hr : r.Ends s (.ok a) s') :
    (liftM r : Seek (StateM σ) α).run.Ends s (.ok (.ok a)) s' := by
  rw [run_lift]
  exact hr.bind (Run.Ends.pure _ _)

theorem ends_lift_error (hr : r.Ends s (.error e) s') :
    ((liftM r : Seek (StateM σ) α) >>= f).run.Ends s (.error e) s' := by
  rw [ExceptT.run_bind, run_lift]
  exact hr.bind_error.bind_error

theorem ends_map {x : Except Failure (Except Missing α)} (g : α → β) (hk : k.run.Ends s x s') :
    (do return g (← k) : Seek (StateM σ) β).run.Ends s (x.map (Except.map g)) s' := by
  rw [ExceptT.run_bind]
  rcases x with e | q | a
  · exact hk.bind_error
  · exact hk.bind (Run.Ends.pure _ _)
  · exact hk.bind (Run.Ends.pure _ _)

/-! ### Which faults a search ends with -/

variable {P : Fault → Prop} {Q : α → Prop}

theorem faults_bind (hk : k.run.Faults P) (hQ : Always Q k) (hf : ∀ a, Q a → (f a).run.Faults P) :
    (k >>= f).run.Faults P := by
  rw [ExceptT.run_bind]
  refine hk.bind hQ fun x hx => ?_
  cases x with
  | error q => exact Run.Faults.pure _
  | ok a => exact hf a (hx a rfl)

theorem faults_bind_any (hk : k.run.Faults P) (hf : ∀ a, (f a).run.Faults P) : (k >>= f).run.Faults P :=
  faults_bind (Q := fun _ => True) hk (fun _ _ _ _ _ _ => trivial) fun a _ => hf a

theorem faults_lift (hr : r.Faults P) : (liftM r : Seek (StateM σ) α).run.Faults P := by
  rw [run_lift]
  exact hr.bind_any fun a => Run.Faults.pure _

/-- How an access of one's own ends, by how the access itself does. -/
theorem run_own_eq (s : σ) : ((own r).run.run.run s).run =
    match (r.run.run s).run with
    | (.ok a, s') => (.ok (.ok a), s')
    | (.error (.fault (.notFound path)), s') => (.ok (.error ⟨path⟩), s')
    | (.error e, s') => (.error e, s') := by
  unfold own
  rw [ExceptT.run_mk, ExceptT.run_tryCatch, StateT.run_bind, Id.run_bind, ExceptT.run_bind,
    StateT.run_bind, Id.run_bind]
  rcases (r.run.run s).run with ⟨e | a, s'⟩
  · cases e with
    | fault c => cases c <;> rfl
    | nesting => rfl
    | timeoutOverflow => rfl
  · rfl

theorem always_own (hr : Run.Always Q r) : Always Q (own r) := by
  intro s x s' h a hx
  subst hx
  unfold Run.Returns at h
  rw [run_own_eq] at h
  split at h
  · rename_i heq
    cases h
    exact hr s a s' heq
  · cases h
  · cases h

/-- A file that is not there is no fault of a search. -/
theorem faults_own (hr : r.Faults P) : (own r).run.Faults P := by
  intro s c s' h
  unfold Run.Ends at h
  rw [run_own_eq] at h
  split at h
  · cases h
  · cases h
  · rename_i heq
    cases h
    exact hr s c s' heq

/-! ### What a search gives -/

section Returns
variable {z : Except Missing α} {w : Except Missing β} {x : Except Fault α}

theorem returns_pure : (pure a : Seek (StateM σ) α).run.Returns s z s' ↔ .ok a = z ∧ s = s' := by
  rw [ExceptT.run_pure, Run.returns_pure]

theorem returns_bind : (k >>= f).run.Returns s w s' ↔
    (∃ q, k.run.Returns s (.error q) s' ∧ w = .error q) ∨
      ∃ a s₁, k.run.Returns s (.ok a) s₁ ∧ (f a).run.Returns s₁ w s' := by
  rw [ExceptT.run_bind, Run.returns_bind]
  constructor
  · rintro ⟨q | a, s₁, hk, h⟩
    · obtain ⟨rfl, rfl⟩ := Run.returns_pure.mp h
      exact .inl ⟨q, hk, rfl⟩
    · exact .inr ⟨a, s₁, hk, h⟩
  · rintro (⟨q, hk, rfl⟩ | ⟨a, s₁, hk, h⟩)
    · exact ⟨.error q, s', hk, Run.returns_pure.mpr ⟨rfl, rfl⟩⟩
    · exact ⟨.ok a, s₁, hk, h⟩

theorem returns_lift : (liftM r : Seek (StateM σ) α).run.Returns s z s' ↔ ∃ a, r.Returns s a s' ∧ z = .ok a := by
  rw [run_lift, Run.returns_map]
  exact exists_congr fun a => and_congr_right fun _ => eq_comm

/-- An access without effects gives a value, or finds that the target is missing. -/
theorem returns_own_ofExcept : (own (Run.ofExcept x) : Seek (StateM σ) α).run.Returns s z s' ↔
    s = s' ∧ ((∃ a, x = .ok a ∧ z = .ok a) ∨ ∃ path, x = .error (.notFound path) ∧ z = .error ⟨path⟩) := by
  unfold Run.Returns
  rw [run_own_eq]
  cases x with
  | ok a =>
    have hrun : ((Run.ofExcept (.ok a) : Run (StateM σ) α).run.run s).run = (.ok a, s) := rfl
    simp [hrun, eq_comm, and_comm]
  | error f =>
    have hrun : ((Run.ofExcept (.error f) : Run (StateM σ) α).run.run s).run = (.error (.fault f), s) := rfl
    rw [hrun]
    cases f with
    | notFound path => simp [eq_comm, and_comm]
    | _ => simp

end Returns

end Seek

/-! ## Runs over an unchanging world -/

namespace Run

theorem eq_pure_or_eq_throw (r : Run Id α) : (∃ a, r = pure a) ∨ ∃ e, r = throw e := by
  rcases h : Id.run r.run with e | a
  · exact .inr ⟨e, h⟩
  · exact .inl ⟨a, h⟩

theorem pure_ne_throw {a : α} {e : Failure} : (pure a : Run Id α) ≠ throw e := by
  intro h
  cases h

theorem pure_inj {a b : α} : (pure a : Run Id α) = pure b ↔ a = b := by
  constructor
  · intro h
    cases h
    rfl
  · rintro rfl
    rfl

/-- Whether a run gives a value can be tried. -/
theorem eq_pure_iff_toOption {r : Run Id α} {a : α} : r = pure a ↔ (Id.run r.run).toOption = some a := by
  rcases eq_pure_or_eq_throw r with ⟨b, rfl⟩ | ⟨e, rfl⟩
  · rw [pure_inj]
    exact Option.some_inj.symm
  · constructor
    · intro h
      cases h
    · intro h
      cases h

theorem bind_eq_pure_iff {r : Run Id α} {f : α → Run Id β} {b : β} :
    r >>= f = pure b ↔ ∃ a, r = pure a ∧ f a = pure b := by
  rcases eq_pure_or_eq_throw r with ⟨a, rfl⟩ | ⟨e, rfl⟩
  · rw [pure_bind]
    simp [pure_inj]
  · constructor
    · intro h
      cases h
    · rintro ⟨a, ha, -⟩
      cases ha

theorem ofExcept_eq_pure_iff {x : Except Fault α} {a : α} :
    (ofExcept x : Run Id α) = pure a ↔ x = .ok a := by
  cases x with
  | error f =>
    constructor
    · intro h
      cases h
    · intro h
      cases h
  | ok b => simp [ofExcept, pure_inj]

theorem mapFault_eq_pure_iff {g : Fault → Fault} {r : Run Id α} {a : α} :
    r.mapFault g = pure a ↔ r = pure a := by
  rcases eq_pure_or_eq_throw r with ⟨b, rfl⟩ | ⟨e, rfl⟩
  · rfl
  · constructor
    · intro h
      cases e <;> cases h
    · intro h
      cases h

/-- How a run ends can be tried. -/
theorem ends_ok_iff_toOption {r : Run (StateM σ) α} {s s' : σ} {a : α} :
    r.Ends s (.ok a) s' ↔ ((r.run.run s).run.1.toOption, (r.run.run s).run.2) = (some a, s') := by
  unfold Ends
  rcases (r.run.run s).run with ⟨e | b, t⟩
  · simp [Except.toOption]
  · simp [Except.toOption]

/-! ### Runs that keep something, and change nothing by it -/

/-- From any state, the run ends as another one does that has none. -/
def Like (r' : Run (StateM σ) α) (r : Run Id α) : Prop := ∀ s, ∃ s', r'.Ends s (Id.run r.run) s'

theorem Like.pure (a : α) : Like (σ := σ) (Pure.pure a) (Pure.pure a) := fun s => ⟨s, Ends.pure a s⟩

theorem Like.throw (e : Failure) : Like (σ := σ) (α := α) (MonadExcept.throw e) (MonadExcept.throw e) :=
  fun s => ⟨s, Ends.throw e s⟩

theorem Like.bind {r' : Run (StateM σ) α} {r : Run Id α} {f' : α → Run (StateM σ) β} {f : α → Run Id β}
    (hr : Like r' r) (hf : ∀ a, Like (f' a) (f a)) : Like (r' >>= f') (r >>= f) := by
  intro s
  obtain ⟨s₁, hs₁⟩ := hr s
  rcases eq_pure_or_eq_throw r with ⟨a, rfl⟩ | ⟨e, rfl⟩
  · obtain ⟨s', hs'⟩ := hf a s₁
    exact ⟨s', Ends.bind hs₁ hs'⟩
  · exact ⟨s₁, Ends.bind_error hs₁⟩

theorem Like.foldlM {f' : β → α → Run (StateM σ) β} {f : β → α → Run Id β} (hf : ∀ b a, Like (f' b a) (f b a))
    (as : List α) (b : β) : Like (as.foldlM f' b) (as.foldlM f b) := by
  induction as generalizing b with
  | nil => exact Like.pure b
  | cons a as ih =>
    rw [List.foldlM_cons, List.foldlM_cons]
    exact (hf b a).bind ih

theorem Like.orElseOn {r' : Run (StateM σ) α} {r : Run Id α} {other' : Fault → Run (StateM σ) α}
    {other : Fault → Run Id α} (hr : Like r' r) (ho : ∀ g, Like (other' g) (other g)) :
    Like (orElseOn r' other') (orElseOn r other) := by
  intro s
  obtain ⟨s₁, hs₁⟩ := hr s
  rcases eq_pure_or_eq_throw r with ⟨a, rfl⟩ | ⟨e, rfl⟩
  · exact ⟨s₁, Ends.orElseOn_ok hs₁⟩
  · cases e with
    | fault g =>
      obtain ⟨s', hs'⟩ := ho g s₁
      exact ⟨s', Ends.orElseOn_fault hs₁ hs'⟩
    | nesting => exact ⟨s₁, Ends.orElseOn_cut hs₁ nofun⟩
    | timeoutOverflow => exact ⟨s₁, Ends.orElseOn_cut hs₁ nofun⟩

end Run

namespace Seek

variable {q : Missing} {a : α} {b : β} {r : Run Id α} {k : Seek Id α} {f : α → Seek Id β}

theorem own_run_eq_ok_iff : (own r).run = (pure (.ok a) : Run Id _) ↔ r = pure a := by
  rcases Run.eq_pure_or_eq_throw r with ⟨b, rfl⟩ | ⟨e, rfl⟩
  · constructor
    · intro h
      cases h
      rfl
    · intro h
      cases h
      rfl
  · constructor
    · intro h
      cases e with
      | fault f => cases f <;> cases h
      | nesting => cases h
      | timeoutOverflow => cases h
    · intro h
      cases h

theorem own_run_eq_missing_iff :
    (own r).run = (pure (.error q) : Run Id _) ↔ r = Run.raise (.notFound q.path) := by
  rcases Run.eq_pure_or_eq_throw r with ⟨b, rfl⟩ | ⟨e, rfl⟩
  · constructor
    · intro h
      cases h
    · intro h
      cases h
  · constructor
    · intro h
      cases e with
      | fault f => cases f <;> cases h; rfl
      | nesting => cases h
      | timeoutOverflow => cases h
    · intro h
      cases h
      rfl

theorem lift_run_eq_ok_iff : (liftM r : Seek Id α).run = pure (.ok a) ↔ r = pure a := by
  rcases Run.eq_pure_or_eq_throw r with ⟨b, rfl⟩ | ⟨e, rfl⟩
  · constructor
    · intro h
      cases h
      rfl
    · intro h
      cases h
      rfl
  · constructor
    · intro h
      cases h
    · intro h
      cases h

theorem lift_run_ne_missing : (liftM r : Seek Id α).run ≠ pure (.error q) := by
  intro h
  rcases Run.eq_pure_or_eq_throw r with ⟨b, rfl⟩ | ⟨e, rfl⟩
  · cases h
  · cases h

theorem bind_run_eq_missing_iff : (k >>= f).run = pure (.error q) ↔
    k.run = pure (.error q) ∨ ∃ a, k.run = pure (.ok a) ∧ (f a).run = pure (.error q) := by
  rw [ExceptT.run_bind, Run.bind_eq_pure_iff]
  constructor
  · rintro ⟨x, hx, h⟩
    cases x with
    | ok a => exact .inr ⟨a, hx, h⟩
    | error p =>
      cases h
      exact .inl hx
  · rintro (h | ⟨a, ha, h⟩)
    · exact ⟨.error q, h, rfl⟩
    · exact ⟨.ok a, ha, h⟩

theorem bind_run_eq_ok_iff :
    (k >>= f).run = pure (.ok b) ↔ ∃ a, k.run = pure (.ok a) ∧ (f a).run = pure (.ok b) := by
  rw [ExceptT.run_bind, Run.bind_eq_pure_iff]
  constructor
  · rintro ⟨x, hx, h⟩
    cases x with
    | ok a => exact ⟨a, hx, h⟩
    | error q => cases h
  · rintro ⟨a, ha, h⟩
    exact ⟨.ok a, ha, h⟩

end Seek

/-! ## Files in memory -/

theorem Memory.file_eq_ok {files : List (String × String)} {path : String} {opened : Opened}
    (h : (Memory.mk files).file path = .ok opened) : ∃ f ∈ files, opened = ⟨f.1, .ofText f.2⟩ := by
  unfold file text? at h
  split at h <;> cases h
  rename_i text htext
  obtain ⟨f, hfind, rfl⟩ := Option.map_eq_some_iff.mp htext
  have hname := List.find?_some hfind
  exact ⟨f, List.mem_of_find?_eq_some hfind, by rw [eq_of_beq hname]⟩

def Memory.noting (files : List (String × String)) : Includer (StateM (List Call)) :=
  { backend := Backend.logged (fun call => modify (· ++ [call])) (Memory.backend ⟨files⟩) }

theorem Memory.noting_glob {files : List (String × String)} {pattern : String} {paths : List String}
    (h : (Memory.mk files).paths pattern = .ok paths) (args : Args) (log : List Call) :
    ((noting files).backend.glob pattern args).Returns log paths (log ++ [.glob pattern args]) := by
  simp only [noting, Backend.logged, backend, h]
  rfl

theorem Memory.noting_openMatching {files : List (String × String)} {pattern : String} {paths : List String}
    {opened : List Opened} (h : (Memory.mk files).paths pattern = .ok paths)
    (hopened : paths.mapM (Memory.mk files).file = .ok opened) (args : Args) (log : List Call) :
    ((noting files).backend.openMatching pattern args).Returns log opened (log ++ [.openMatching pattern args]) := by
  have hfiles : (do (← (Memory.mk files).paths pattern).mapM (Memory.mk files).file) = .ok opened := by
    rw [h]
    exact hopened
  simp only [noting, Backend.logged, backend, hfiles]
  rfl

end Transclusion
