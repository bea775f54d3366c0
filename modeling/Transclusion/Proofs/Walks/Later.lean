import Transclusion.Proofs.Includes.Defaults
import Transclusion.Proofs.Walks.InPlace
import Transclusion.Proofs.Walks.Stages

/-!
# Directives in two stages

What a directive brings in can be parsed with its own includes left in it, and these be replaced when
all has been put together.

* `Run.Through once first after` : whatever `once` gives, `after` gives from what `first` gives;
* `Seek.Through` : the same for a search, which also finds the same targets missing;
* `replaceInItems_append` : the items of files are replaced file by file;
* `Includer.found_through`, `Includer.resolveWith_through` : a directive goes through if parsing does.
-/

namespace Transclusion

open Run

variable {α β γ δ : Type}

/-! ## Runs -/

/-- Whatever the run gives, a run that goes on from what a first run gives does. -/
def Run.Through (once : Run Id α) (first : Run Id β) (after : β → Run Id α) : Prop :=
  ∀ a, once = pure a → ∃ b, first = pure b ∧ after b = pure a

namespace Run.Through

variable {once : Run Id α} {first : Run Id β} {after : β → Run Id α}

theorem pure {a : α} {b : β} (h : after b = Pure.pure a) : Through (Pure.pure a) (Pure.pure b) after := by
  intro a' ha
  exact ⟨b, rfl, h.trans ha⟩

theorem map {after' : δ → Run Id γ} {f : α → γ} {g : β → δ} (h : Through once first after)
    (hafter : ∀ b, after' (g b) = do return f (← after b)) :
    Through (do return f (← once)) (do return g (← first)) after' := by
  intro c hc
  obtain ⟨a, ha, hc⟩ := bind_eq_pure_iff.mp hc
  obtain ⟨b, hb, hab⟩ := h a ha
  refine ⟨g b, bind_eq_pure_iff.mpr ⟨b, hb, rfl⟩, ?_⟩
  rw [hafter]
  exact bind_eq_pure_iff.mpr ⟨a, hab, hc⟩

theorem pair {α₁ α₂ β₁ β₂ : Type} {once₁ : Run Id α₁} {once₂ : Run Id α₂} {first₁ : Run Id β₁}
    {first₂ : Run Id β₂} {after₁ : β₁ → Run Id α₁} {after₂ : β₂ → Run Id α₂} {after : δ → Run Id γ}
    {f : α₁ → α₂ → γ} {g : β₁ → β₂ → δ} (h₁ : Through once₁ first₁ after₁)
    (h₂ : Through once₂ first₂ after₂)
    (hafter : ∀ b₁ b₂, after (g b₁ b₂) = do let a₁ ← after₁ b₁; return f a₁ (← after₂ b₂)) :
    Through (do let a₁ ← once₁; return f a₁ (← once₂)) (do let b₁ ← first₁; return g b₁ (← first₂))
      after := by
  intro c hc
  obtain ⟨a₁, ha₁, hc⟩ := bind_eq_pure_iff.mp hc
  obtain ⟨a₂, ha₂, hc⟩ := bind_eq_pure_iff.mp hc
  obtain ⟨b₁, hb₁, hab₁⟩ := h₁ a₁ ha₁
  obtain ⟨b₂, hb₂, hab₂⟩ := h₂ a₂ ha₂
  refine ⟨g b₁ b₂, bind_eq_pure_iff.mpr ⟨b₁, hb₁, bind_eq_pure_iff.mpr ⟨b₂, hb₂, rfl⟩⟩, ?_⟩
  rw [hafter]
  exact bind_eq_pure_iff.mpr ⟨a₁, hab₁, bind_eq_pure_iff.mpr ⟨a₂, hab₂, hc⟩⟩

end Run.Through

/-- Going through keeps to pairs. -/
theorem Run.through_staged : Staged (m := Id) fun _ _ => Through where
  pure := Through.pure
  map := Through.map
  pair := Through.pair

/-! ## Searches -/

/-- Whatever is found, a run that goes on from what another search finds gives; and what is missing is
missing there too. -/
structure Seek.Through (once : Seek Id α) (first : Seek Id β) (after : β → Run Id α) : Prop where
  found : ∀ a, once.run = pure (.ok a) → ∃ b, first.run = pure (.ok b) ∧ after b = pure a
  missing : ∀ q, once.run = pure (.error q) → first.run = pure (.error q)

namespace Seek.Through

variable {once : Seek Id α} {first : Seek Id β} {after : β → Run Id α}

theorem pure {a : α} {b : β} (h : after b = Pure.pure a) : Through (Pure.pure a) (Pure.pure b) after where
  found a' ha := ⟨b, rfl, by cases ha; exact h⟩
  missing q hq := by cases hq

theorem lift {once : Run Id α} {first : Run Id β} (h : Run.Through once first after) :
    Through (liftM once) (liftM first) after where
  found a ha := by
    obtain ⟨b, hb, hab⟩ := h a (lift_run_eq_ok_iff.mp ha)
    exact ⟨b, lift_run_eq_ok_iff.mpr hb, hab⟩
  missing q hq := absurd hq lift_run_ne_missing

theorem bind {k : Seek Id γ} {f : γ → Seek Id α} {f' : γ → Seek Id β}
    (h : ∀ c, k.run = Pure.pure (.ok c) → Through (f c) (f' c) after) :
    Through (k >>= f) (k >>= f') after where
  found a ha := by
    obtain ⟨c, hc, ha⟩ := bind_run_eq_ok_iff.mp ha
    obtain ⟨b, hb, hab⟩ := (h c hc).found a ha
    exact ⟨b, bind_run_eq_ok_iff.mpr ⟨c, hc, hb⟩, hab⟩
  missing q hq := by
    rcases bind_run_eq_missing_iff.mp hq with hq | ⟨c, hc, hq⟩
    · exact bind_run_eq_missing_iff.mpr (.inl hq)
    · exact bind_run_eq_missing_iff.mpr (.inr ⟨c, hc, (h c hc).missing q hq⟩)

theorem map {after' : δ → Run Id γ} {f : α → γ} {g : β → δ} (h : Through once first after)
    (hafter : ∀ b, after' (g b) = do return f (← after b)) :
    Through (do return f (← once)) (do return g (← first)) after' where
  found c hc := by
    obtain ⟨a, ha, hc⟩ := bind_run_eq_ok_iff.mp hc
    obtain ⟨b, hb, hab⟩ := h.found a ha
    refine ⟨g b, bind_run_eq_ok_iff.mpr ⟨b, hb, rfl⟩, ?_⟩
    rw [hafter, hab, pure_bind]
    cases hc
    rfl
  missing q hq := by
    rcases bind_run_eq_missing_iff.mp hq with hq | ⟨a, -, hq⟩
    · exact bind_run_eq_missing_iff.mpr (.inl (h.missing q hq))
    · cases hq

theorem pair {α₁ α₂ β₁ β₂ : Type} {once₁ : Seek Id α₁} {once₂ : Seek Id α₂} {first₁ : Seek Id β₁}
    {first₂ : Seek Id β₂} {after₁ : β₁ → Run Id α₁} {after₂ : β₂ → Run Id α₂} {after : δ → Run Id γ}
    {f : α₁ → α₂ → γ} {g : β₁ → β₂ → δ} (h₁ : Through once₁ first₁ after₁)
    (h₂ : Through once₂ first₂ after₂)
    (hafter : ∀ b₁ b₂, after (g b₁ b₂) = do let a₁ ← after₁ b₁; return f a₁ (← after₂ b₂)) :
    Through (do let a₁ ← once₁; return f a₁ (← once₂)) (do let b₁ ← first₁; return g b₁ (← first₂))
      after where
  found c hc := by
    obtain ⟨a₁, ha₁, hc⟩ := bind_run_eq_ok_iff.mp hc
    obtain ⟨a₂, ha₂, hc⟩ := bind_run_eq_ok_iff.mp hc
    obtain ⟨b₁, hb₁, hab₁⟩ := h₁.found a₁ ha₁
    obtain ⟨b₂, hb₂, hab₂⟩ := h₂.found a₂ ha₂
    refine ⟨g b₁ b₂, bind_run_eq_ok_iff.mpr ⟨b₁, hb₁, bind_run_eq_ok_iff.mpr ⟨b₂, hb₂, rfl⟩⟩, ?_⟩
    rw [hafter, hab₁, pure_bind, hab₂, pure_bind]
    cases hc
    rfl
  missing q hq := by
    rcases bind_run_eq_missing_iff.mp hq with hq | ⟨a₁, ha₁, hq⟩
    · exact bind_run_eq_missing_iff.mpr (.inl (h₁.missing q hq))
    · obtain ⟨b₁, hb₁, -⟩ := h₁.found a₁ ha₁
      refine bind_run_eq_missing_iff.mpr (.inr ⟨b₁, hb₁, ?_⟩)
      rcases bind_run_eq_missing_iff.mp hq with hq | ⟨a₂, -, hq⟩
      · exact bind_run_eq_missing_iff.mpr (.inl (h₂.missing q hq))
      · cases hq

end Seek.Through

/-! ## Files -/

section Copies
variable {m : Type → Type} [Monad m] [LawfulMonad m]
variable {isIncludeTag : Tag → Bool} {handle : Value → Run m Value}

/-- The items of a sequence that was put together are replaced part by part. -/
theorem replaceInItems_append (vs ws : List Value) :
    replaceInItems isIncludeTag handle (vs ++ ws) = do
      let xs ← replaceInItems isIncludeTag handle vs
      return xs ++ (← replaceInItems isIncludeTag handle ws) := by
  induction vs with
  | nil => simp [replaceInItems]
  | cons v rest ih => simp [replaceInItems, ih]

end Copies

namespace Includer

variable {I : Includer Id} {parse parse' : String → Content → Run Id Value} {d : Directive}
variable {isIncludeTag : Tag → Bool} {after : Value → Run Id Value}

/-- What a file adds, if the file is not itself an include that would have to be flattened. -/
theorem pieces_through {flatten : Bool} {path : String} {c : Content}
    (h : Through (parse path c) (parse' path c) (replaceIncludes isIncludeTag after))
    (hflat : flatten = true → ∀ v, parse' path c = pure v → v.isInclude isIncludeTag = false) :
    Through (do pieces flatten path (← parse path c)) (do pieces flatten path (← parse' path c))
      (replaceInItems isIncludeTag after) := by
  intro items hitems
  obtain ⟨w, hw, hitems⟩ := bind_eq_pure_iff.mp hitems
  obtain ⟨v, hv, hvw⟩ := h w hw
  cases flatten with
  | false =>
    cases hitems
    refine ⟨[v], bind_eq_pure_iff.mpr ⟨v, hv, rfl⟩, ?_⟩
    rw [replaceInItems, hvw, pure_bind]
    rfl
  | true =>
    have hnone := hflat rfl v hv
    -- a copy of anything but an include has the shape that this had, so it was a sequence
    cases w <;> try cases hitems
    cases v with
    | sequence vs =>
      rw [replaceIncludes] at hvw
      obtain ⟨ws, hws, heq⟩ := bind_eq_pure_iff.mp hvw
      cases heq
      exact ⟨vs, bind_eq_pure_iff.mpr ⟨_, hv, rfl⟩, hws⟩
    | mapping es =>
      rw [replaceIncludes] at hvw
      obtain ⟨fs, -, heq⟩ := bind_eq_pure_iff.mp hvw
      cases heq
    | tagged t p =>
      have ht : ¬ isIncludeTag t = true := Bool.eq_false_iff.mp hnone
      rw [replaceIncludes, if_neg ht] at hvw
      obtain ⟨u, -, heq⟩ := bind_eq_pure_iff.mp hvw
      cases heq
    | _ => cases hvw

theorem gather_through {flatten : Bool} {openOne : γ → Seek Id Opened} {files : List γ}
    (h : ∀ a ∈ files, ∀ file, (openOne a).run = pure (.ok file) →
      Through (parse file.path file.content) (parse' file.path file.content)
        (replaceIncludes isIncludeTag after))
    (hflat : flatten = true → ∀ a ∈ files, ∀ file, (openOne a).run = pure (.ok file) →
      ∀ v, parse' file.path file.content = pure v → v.isInclude isIncludeTag = false) :
    Seek.Through (gather flatten parse openOne files) (gather flatten parse' openOne files)
      (replaceInItems isIncludeTag after) := by
  induction files with
  | nil => exact Seek.Through.pure rfl
  | cons a rest ih =>
    rw [gather, gather]
    refine Seek.Through.bind fun file hfile => ?_
    have hpieces := pieces_through (h a List.mem_cons_self file hfile)
      fun hf => hflat hf a List.mem_cons_self file hfile
    have hrest := ih (fun b hb => h b (List.mem_cons_of_mem a hb))
      fun hf b hb => hflat hf b (List.mem_cons_of_mem a hb)
    exact (Seek.Through.lift hpieces).pair hrest fun vs ws => replaceInItems_append vs ws

inductive Opens (I : Includer Id) (d : Directive) : Opened → Prop
  | single {file : Opened} (hroute : (I.place d).route.isMulti = false)
      (hopen : I.backend.openOne (I.place d).path d.args = pure file) : Opens I d file
  | matching {files : List Opened} {file : Opened} (hroute : (I.place d).route = .remoteGlob)
      (hopen : I.backend.openMatching (I.place d).path d.args = pure files) (hfile : file ∈ files) :
      Opens I d file
  | listed {plan : Plan} {paths : List String} {p : String} {file : Opened}
      (hroute : (I.place d).route = .localGlob) (hplan : Plan.ofParams d.positional d.named = .ok plan)
      (hglob : I.backend.glob (I.place d).path plan.listing.args = pure paths) (hp : p ∈ paths)
      (hopen : I.backend.openOne p plan.opening.args = pure file) : Opens I d file

theorem found_through
    (h : ∀ file, I.Opens d file → Through (parse file.path file.content) (parse' file.path file.content)
      (replaceIncludes isIncludeTag after))
    (hflat : d.flatten = true → (I.place d).route.isMulti = true → ∀ file, I.Opens d file →
      ∀ v, parse' file.path file.content = pure v → v.isInclude isIncludeTag = false) :
    Seek.Through (I.found parse d (I.place d).route (I.place d).path)
      (I.found parse' d (I.place d).route (I.place d).path) (replaceIncludes isIncludeTag after) := by
  have hsequence : ∀ vs, replaceIncludes isIncludeTag after (.sequence vs) =
      do return .sequence (← replaceInItems isIncludeTag after vs) := fun vs => by rw [replaceIncludes]
  have hsingle : (I.place d).route.isMulti = false → Seek.Through
      (do let file ← Seek.own (I.backend.openOne (I.place d).path d.args)
          (parse file.path file.content : Run Id Value))
      (do let file ← Seek.own (I.backend.openOne (I.place d).path d.args)
          (parse' file.path file.content : Run Id Value)) (replaceIncludes isIncludeTag after) :=
    fun hroute => Seek.Through.bind fun file hfile =>
      Seek.Through.lift (h file (.single hroute (Seek.own_run_eq_ok_iff.mp hfile)))
  unfold found
  cases hroute : (I.place d).route with
  | remoteGlob =>
    have hmulti : (I.place d).route.isMulti = true := by rw [hroute]; rfl
    refine Seek.Through.bind fun files hfiles => ?_
    have hopens : ∀ file ∈ files, I.Opens d file := fun file hfile =>
      .matching hroute (Seek.own_run_eq_ok_iff.mp hfiles) hfile
    refine (gather_through ?_ ?_).map hsequence
    · rintro file hfile _ ⟨⟩
      exact h file (hopens file hfile)
    · rintro hf file hfile _ ⟨⟩
      exact hflat hf hmulti file (hopens file hfile)
  | localGlob =>
    have hmulti : (I.place d).route.isMulti = true := by rw [hroute]; rfl
    refine Seek.Through.bind fun plan hplan => Seek.Through.bind fun paths hpaths => ?_
    replace hplan := ofExcept_eq_pure_iff.mp (Seek.lift_run_eq_ok_iff.mp hplan)
    have hopens : ∀ p ∈ paths, ∀ file,
        (Seek.own (I.backend.openOne p plan.opening.args)).run = pure (.ok file) → I.Opens d file :=
      fun p hp file hfile => .listed hroute hplan (Seek.own_run_eq_ok_iff.mp hpaths) hp
        (Seek.own_run_eq_ok_iff.mp hfile)
    refine (gather_through ?_ ?_).map hsequence
    · exact fun p hp file hfile => h file (hopens p hp file hfile)
    · exact fun hf p hp file hfile => hflat hf hmulti file (hopens p hp file hfile)
  | remoteSingle => exact hsingle (by rw [hroute]; rfl)
  | localSingle => exact hsingle (by rw [hroute]; rfl)

theorem resolveWith_through
    (h : Seek.Through (I.found parse d (I.place d).route (I.place d).path)
      (I.found parse' d (I.place d).route (I.place d).path) (replaceIncludes isIncludeTag after))
    (hdefault : ∀ q v, (I.found parse d (I.place d).route (I.place d).path).run = pure (.error q) →
      d.default = some v → Through (defaultValue parse (I.place d).path v)
        (defaultValue parse' (I.place d).path v) (replaceIncludes isIncludeTag after)) :
    Through (I.resolveWith parse d) (I.resolveWith parse' d) (replaceIncludes isIncludeTag after) := by
  intro w hw
  rw [resolveWith_eq] at hw
  obtain ⟨x, hx, hw⟩ := bind_eq_pure_iff.mp hw
  rw [resolveWith_eq]
  cases x with
  | ok u =>
    cases hw
    obtain ⟨v, hv, hvw⟩ := h.found w hx
    exact ⟨v, bind_eq_pure_iff.mpr ⟨_, hv, rfl⟩, hvw⟩
  | error q =>
    have hmissing := h.missing q hx
    rw [hmissing, pure_bind]
    dsimp only at hw ⊢
    cases hd : d.default with
    | some v =>
      rw [hd] at hw
      exact hdefault q v hx hd w hw
    | none =>
      rw [hd] at hw
      cases hw

end Includer
end Transclusion
