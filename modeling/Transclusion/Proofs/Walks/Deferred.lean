import Transclusion.Proofs.Walks.Copy
import Transclusion.Proofs.Walks.Stages

/-!
# Deferred includes

* `construct_eq_replaceIncludes` : where includes lie apart, constructing a tree is copying it;
* `construct_still` : constructing has no effects of its own;
* `Run.Splits` : a run as two, the first of which has no effects;
* `replaceIncludes_splits` : a copy splits if what is done to each include does;
* `Includer.constructTree_iff_deferred` : includes may as well be left in the tree and walked later.
-/

namespace Transclusion

open Run

/-! ## Constructing is copying -/

section Copying
variable {m : Type → Type} [Monad m] [LawfulMonad m]
variable {isIncludeTag : Tag → Bool} {handle : Value → Run m Value}

theorem replaceInEntries_eq_map (es : Entries) :
    replaceInEntries isIncludeTag handle es =
      (fun ws => (es.map (·.1)).zip ws) <$> replaceInItems isIncludeTag handle (es.map (·.2)) := by
  induction es with
  | nil =>
    rw [replaceInEntries, List.map_nil, List.map_nil, replaceInItems, map_pure]
    rfl
  | cons e rest ih =>
    rw [replaceInEntries, ih, List.map_cons, List.map_cons, replaceInItems, map_bind]
    apply bind_congr
    intro w
    rw [bind_map_left, map_bind]
    apply bind_congr
    intro ws
    rw [map_pure]
    rfl

theorem Entries.Distinct.zip {es : Entries} (h : Entries.Distinct es) (ws : List Value) :
    Entries.Distinct ((es.map (·.1)).zip ws) := by
  have hkeys : (((es.map (·.1)).zip ws).map (·.1)).Sublist (es.map (·.1)) := by
    rw [List.zip_eq_zip_take_min, List.map_fst_zip (by simp)]
    exact List.take_sublist _ _
  rw [Entries.distinct_iff_keys] at h ⊢
  exact h.sublist hkeys

theorem ofPairs_replaceInEntries {es : Entries} (h : Entries.Distinct es) :
    (do return Value.mapping (Entries.ofPairs (← replaceInEntries isIncludeTag handle es))) =
      (do return Value.mapping (← replaceInEntries isIncludeTag handle es) : Run m Value) := by
  rw [replaceInEntries_eq_map, bind_map_left, bind_map_left]
  apply bind_congr
  intro ws
  rw [Entries.ofPairs_of_distinct (h.zip ws)]

omit [LawfulMonad m] in
theorem constructAll_eq {items : List Value}
    (h : ∀ v ∈ items, construct isIncludeTag handle v = replaceIncludes isIncludeTag handle v) :
    constructAll isIncludeTag handle items = replaceInItems isIncludeTag handle items := by
  induction items with
  | nil => rfl
  | cons v rest ih =>
    have hrest := ih fun w hw => h w (List.mem_cons_of_mem v hw)
    rw [constructAll, replaceInItems, h v List.mem_cons_self, hrest]

theorem constructEntries_eq {es : Entries}
    (hk : ∀ e ∈ es, construct isIncludeTag handle e.1 = pure e.1)
    (hv : ∀ e ∈ es, construct isIncludeTag handle e.2 = replaceIncludes isIncludeTag handle e.2) :
    constructEntries isIncludeTag handle es = replaceInEntries isIncludeTag handle es := by
  induction es with
  | nil => rfl
  | cons e rest ih =>
    have hk' := hk e List.mem_cons_self
    have hv' := hv e List.mem_cons_self
    have hrest := ih (fun f hf => hk f (List.mem_cons_of_mem e hf))
      fun f hf => hv f (List.mem_cons_of_mem e hf)
    rw [constructEntries, replaceInEntries, hk', hv', hrest, pure_bind]

/-- Where no include lies in a key or in another include, to construct a tree is to copy it. -/
theorem construct_eq_replaceIncludes {v : Value} (hwf : v.WellFormed) (hapart : v.Apart isIncludeTag) :
    construct isIncludeTag handle v = replaceIncludes isIncludeTag handle v := by
  unfold Value.WellFormed at hwf
  unfold Value.Apart at hapart
  induction v using Value.inductionOn with
  | null => rfl
  | bool b => rfl
  | number n => rfl
  | string s => rfl
  | sequence items ih =>
    have hitems := (Value.all_parts_sequence items |>.mp hwf).2
    have hitems' := (Value.all_parts_sequence items |>.mp hapart).2
    rw [construct, replaceIncludes, constructAll_eq fun v hv => ih v hv (hitems v hv) (hitems' v hv)]
  | mapping es ih =>
    obtain ⟨hd, hes⟩ := Value.all_parts_mapping es |>.mp hwf
    obtain ⟨hkeys, hes'⟩ := Value.all_parts_mapping es |>.mp hapart
    -- a key that holds no include is constructed as it is
    have hk : ∀ e ∈ es, construct isIncludeTag handle e.1 = pure e.1 := by
      intro e he
      have hfree : e.1.FreeOf isIncludeTag := hkeys.1 e.1 (List.mem_map_of_mem he)
      rw [(ih e he).1 (hes e he).1 (hes' e he).1]
      exact replaceIncludes_settled hfree.settled
    have hv : ∀ e ∈ es, construct isIncludeTag handle e.2 = replaceIncludes isIncludeTag handle e.2 :=
      fun e he => (ih e he).2 (hes e he).2 (hes' e he).2
    rw [construct, replaceIncludes, constructEntries_eq hk hv]
    exact ofPairs_replaceInEntries (hd es rfl)
  | tagged t v ih =>
    have hv := (Value.all_parts_tagged t v |>.mp hwf).2
    obtain ⟨hpayload, hv'⟩ := Value.all_parts_tagged t v |>.mp hapart
    rw [construct, replaceIncludes, ih hv hv']
    by_cases ht : isIncludeTag t = true
    · have hfree : v.FreeOf isIncludeTag := hpayload.2 ht v List.mem_cons_self
      rw [if_pos ht, replaceIncludes_settled hfree.settled, pure_bind, if_pos ht]
    · rw [if_neg ht]
      apply bind_congr
      intro w
      rw [if_neg ht]

/-- Constructing has no effects but those of what is done to includes. -/
theorem construct_still (h : ∀ p, (handle p).Still) (v : Value) :
    (construct isIncludeTag handle v).Still := by
  induction v using Value.inductionOn with
  | null => exact Still.pure _
  | bool b => exact Still.pure _
  | number n => exact Still.pure _
  | string s => exact Still.pure _
  | sequence items ih =>
    rw [construct]
    refine Still.bind ?_ fun ws => Still.pure _
    induction items with
    | nil => exact Still.pure _
    | cons v rest ihrest =>
      rw [constructAll]
      have hrest := ihrest fun w hw => ih w (List.mem_cons_of_mem v hw)
      exact (ih v List.mem_cons_self).bind fun w => hrest.bind fun ws => Still.pure _
  | mapping es ih =>
    rw [construct]
    refine Still.bind ?_ fun fs => Still.pure _
    induction es with
    | nil => exact Still.pure _
    | cons e rest ihrest =>
      rw [constructEntries]
      have he := ih e List.mem_cons_self
      have hrest := ihrest fun f hf => ih f (List.mem_cons_of_mem e hf)
      exact he.1.bind fun k => he.2.bind fun w => hrest.bind fun fs => Still.pure _
  | tagged t v ih =>
    rw [construct]
    refine ih.bind fun w => ?_
    split
    · exact h w
    · exact Still.pure _

end Copying

/-! ## Two runs for one -/

variable {σ α β : Type}

/-- A run gives what another gives that goes on from what a first run gives without any effects. -/
structure Run.Splits (once : Run (StateM σ) α) (first : Run (StateM σ) β)
    (after : β → Run (StateM σ) α) : Prop where
  still : first.Still
  returns_iff : ∀ s a s', once.Returns s a s' ↔ ∃ b, first.Returns s b s ∧ (after b).Returns s a s'

section Splitting
variable {isIncludeTag : Tag → Bool} {once first after : Value → Run (StateM σ) Value}

/-- Both ways of a pair split if those of its parts do. -/
theorem Run.Splits.pair {α₁ α₂ β₁ β₂ γ δ : Type} {once₁ : Run (StateM σ) α₁}
    {once₂ : Run (StateM σ) α₂} {first₁ : Run (StateM σ) β₁} {first₂ : Run (StateM σ) β₂}
    {after₁ : β₁ → Run (StateM σ) α₁} {after₂ : β₂ → Run (StateM σ) α₂}
    {after : δ → Run (StateM σ) γ} {f : α₁ → α₂ → γ} {g : β₁ → β₂ → δ}
    (h₁ : Splits once₁ first₁ after₁) (h₂ : Splits once₂ first₂ after₂)
    (hafter : ∀ b₁ b₂, after (g b₁ b₂) = do let a₁ ← after₁ b₁; return f a₁ (← after₂ b₂)) :
    Splits (do let a₁ ← once₁; return f a₁ (← once₂))
      (do let b₁ ← first₁; return g b₁ (← first₂)) after := by
  refine ⟨h₁.still.bind fun b₁ => h₂.still.bind fun b₂ => Still.pure _, fun s c s' => ?_⟩
  constructor
  · intro h
    obtain ⟨a₁, s₁, ha₁, h⟩ := returns_bind.mp h
    obtain ⟨a₂, ha₂, rfl⟩ := returns_map.mp h
    obtain ⟨b₁, hb₁, hab₁⟩ := (h₁.returns_iff s a₁ s₁).mp ha₁
    obtain ⟨b₂, hb₂, hab₂⟩ := (h₂.returns_iff s₁ a₂ s').mp ha₂
    -- `first₂` has no effects, so it gives the same before `after₁` as it would after that
    have hb₂' : first₂.Returns s b₂ s := (h₂.still.returns hb₂).2 s
    refine ⟨g b₁ b₂, returns_bind.mpr ⟨b₁, s, hb₁, returns_map.mpr ⟨b₂, hb₂', rfl⟩⟩, ?_⟩
    rw [hafter]
    exact returns_bind.mpr ⟨a₁, s₁, hab₁, returns_map.mpr ⟨a₂, hab₂, rfl⟩⟩
  · rintro ⟨d, hd, h⟩
    obtain ⟨b₁, s₁, hb₁, hd⟩ := returns_bind.mp hd
    obtain ⟨b₂, hb₂, rfl⟩ := returns_map.mp hd
    obtain ⟨rfl, -⟩ := h₁.still.returns hb₁
    rw [hafter] at h
    obtain ⟨a₁, s₁, hab₁, h⟩ := returns_bind.mp h
    obtain ⟨a₂, hab₂, rfl⟩ := returns_map.mp h
    have hb₂' : first₂.Returns s₁ b₂ s₁ := (h₂.still.returns hb₂).2 s₁
    have ha₁ : once₁.Returns s a₁ s₁ := (h₁.returns_iff s a₁ s₁).mpr ⟨b₁, hb₁, hab₁⟩
    have ha₂ : once₂.Returns s₁ a₂ s' := (h₂.returns_iff s₁ a₂ s').mpr ⟨b₂, hb₂', hab₂⟩
    exact returns_bind.mpr ⟨a₁, s₁, ha₁, returns_map.mpr ⟨a₂, ha₂, rfl⟩⟩

theorem Run.Splits.map {γ δ : Type} {once : Run (StateM σ) α} {first : Run (StateM σ) β}
    {after : β → Run (StateM σ) α} {after' : δ → Run (StateM σ) γ} {f : α → γ} {g : β → δ}
    (h : Splits once first after) (hafter : ∀ b, after' (g b) = do return f (← after b)) :
    Splits (do return f (← once)) (do return g (← first)) after' := by
  refine ⟨h.still.bind fun b => Still.pure _, fun s c s' => ?_⟩
  constructor
  · intro hc
    obtain ⟨a, ha, rfl⟩ := returns_map.mp hc
    obtain ⟨b, hb, hab⟩ := (h.returns_iff s a s').mp ha
    refine ⟨g b, returns_map.mpr ⟨b, hb, rfl⟩, ?_⟩
    rw [hafter]
    exact returns_map.mpr ⟨a, hab, rfl⟩
  · rintro ⟨d, hd, hc⟩
    obtain ⟨b, hb, rfl⟩ := returns_map.mp hd
    rw [hafter] at hc
    obtain ⟨a, hab, rfl⟩ := returns_map.mp hc
    exact returns_map.mpr ⟨a, (h.returns_iff s a s').mpr ⟨b, hb, hab⟩, rfl⟩

theorem Run.Splits.pure {a : α} {b : β} {after : β → Run (StateM σ) α} (h : after b = pure a) :
    Splits (Pure.pure a) (Pure.pure b) after := by
  refine ⟨Still.pure b, fun s a' s' => ?_⟩
  constructor
  · intro ha
    refine ⟨b, returns_pure.mpr ⟨rfl, rfl⟩, ?_⟩
    rw [h]
    exact ha
  · rintro ⟨b', hb, ha⟩
    obtain ⟨rfl, -⟩ := returns_pure.mp hb
    rw [h] at ha
    exact ha

/-- Splitting keeps to pairs. -/
theorem Run.splits_staged : Staged (m := StateM σ) fun _ _ => Splits where
  pure := Splits.pure
  map := Splits.map
  pair := Splits.pair

theorem replaceIncludes_splits {v : Value} (hwf : v.WellFormed) (hapart : v.Apart isIncludeTag)
    (h : ∀ p : Value, p.WellFormed → p.FreeOf isIncludeTag →
      Splits (once p) (first p) (replaceIncludes isIncludeTag after)) :
    Splits (replaceIncludes isIncludeTag once v) (replaceIncludes isIncludeTag first v)
      (replaceIncludes isIncludeTag after) := by
  refine replaceIncludes_staged splits_staged fun n hn t p hnode ht => ?_
  obtain ⟨hp, hfree⟩ := hapart.inner_includes hwf n hn t p hnode ht
  exact h p hp hfree

end Splitting

/-! ## Loading and walking later -/

namespace Includer

variable {I : Includer (StateM σ)}

theorem handle_still {m : Type → Type} [Monad m] [LawfulMonad m] {I : Includer m}
    (ha : I.autoload = false) (resolve : Directive → Run m Value) (p : Value) :
    (I.handle resolve p).Still := by
  unfold handle
  refine (Still.ofExcept _).bind fun d => ?_
  rw [ha]
  exact Still.pure _

/-- The include that was left is the one that is resolved. -/
theorem walkWithin_toNode {m : Type → Type} [Monad m] [LawfulMonad m] (I : Includer m) (nested : Bool)
    (levels : Nat) {p : Value} {d : Directive} (hwf : p.WellFormed) (hd : Directive.ofNode p = .ok d) :
    I.walkWithin nested (levels + 1) (d.toNode I.tag) = do
      let w ← I.resolve d
      if nested then I.walkWithin nested levels w else return w := by
  have hback : Directive.ofNode d.payload = .ok d :=
    Directive.ofNode_payload (Directive.writable_of_ofNode hd (hwf p .refl))
  have htag : I.isInclude I.tag = true := Tag.same_refl I.tag
  rw [walkWithin, Directive.toNode, replaceIncludes, if_pos htag, hback]
  unfold Run.ofExcept
  rw [pure_bind]

/-- A walk finds nothing more to do in what it resolved. -/
theorem returns_resolve_iff (ha : I.autoload = true) (hl : I.HasOwnLoader) (nested : Bool)
    (levels : Nat) {p : Value} {d : Directive} (hwf : p.WellFormed) (hfree : p.FreeOf I.isInclude)
    (hd : Directive.ofNode p = .ok d) {s s' : σ} {w : Value} :
    (I.resolve d).Returns s w s' ↔
      (I.walkWithin nested (levels + 1) (d.toNode I.tag)).Returns s w s' := by
  have hstop : ∀ w₁ s₁, (I.resolve d).Returns s w₁ s₁ →
      (if nested then I.walkWithin nested levels w₁ else return w₁ : Run (StateM σ) Value) = pure w₁ := by
    intro w₁ s₁ hw₁
    have hall := (follows_notInclude ha hl).resolve (Directive.all_of_ofNode hd hfree)
    have hnone : w₁.FreeOf I.isInclude := hall s w₁ s₁ hw₁
    rw [walkWithin_settled I nested levels hnone.settled, ite_self]
  rw [walkWithin_toNode I nested levels hwf hd, returns_bind]
  constructor
  · intro hw
    refine ⟨w, s', hw, ?_⟩
    rw [hstop w s' hw]
    exact returns_pure.mpr ⟨rfl, rfl⟩
  · rintro ⟨w₁, s₁, hw₁, hw⟩
    rw [hstop w₁ s₁ hw₁] at hw
    obtain ⟨rfl, rfl⟩ := returns_pure.mp hw
    exact hw₁

/-- To resolve an include is to leave it as a node and to walk that. -/
theorem handle_splits (ha : I.autoload = true) (hl : I.HasOwnLoader) (nested : Bool) (levels : Nat)
    {p : Value} (hwf : p.WellFormed) (hfree : p.FreeOf I.isInclude) :
    Splits (I.handle I.resolve p) ((I.withAutoload false).handle (I.withAutoload false).resolve p)
      (I.walkWithin nested (levels + 1)) := by
  refine ⟨handle_still rfl _ p, fun s w s' => ?_⟩
  unfold handle withAutoload
  rw [ha, returns_bind]
  constructor
  · rintro ⟨d, s₁, hread, hw⟩
    obtain ⟨hd, rfl⟩ := returns_ofExcept.mp hread
    refine ⟨d.toNode I.tag, ?_, (returns_resolve_iff ha hl nested levels hwf hfree hd).mp hw⟩
    exact returns_bind.mpr ⟨d, s, hread, returns_pure.mpr ⟨rfl, rfl⟩⟩
  · rintro ⟨n, hn, hw⟩
    obtain ⟨d, s₁, hread, hnode⟩ := returns_bind.mp hn
    obtain ⟨hd, rfl⟩ := returns_ofExcept.mp hread
    obtain ⟨rfl, -⟩ := returns_pure.mp hnode
    exact ⟨d, s, hread, (returns_resolve_iff ha hl nested levels hwf hfree hd).mpr hw⟩

/-- **Where no include lies in a key or in another include, includes may as well be left in the tree
and walked later.** Both ways lead to the same tree and leave the same state, so that they have asked
the backend and the base directory for the same things in the same order. -/
theorem constructTree_iff_deferred (ha : I.autoload = true) (hl : I.HasOwnLoader) {v : Value}
    (hwf : v.WellFormed) (hapart : v.Apart I.isInclude) (nested : Bool) (s : σ) (w : Value) (s' : σ) :
    (I.constructTree v).Returns s w s' ↔
      ∃ d s₁, ((I.withAutoload false).constructTree v).Returns s d s₁ ∧
        (I.walk nested d).Returns s₁ w s' := by
  have hsplit := replaceIncludes_splits hwf hapart fun p hp hfree =>
    handle_splits ha hl nested I.nesting hp hfree
  have heager : I.constructTree v = replaceIncludes I.isInclude (I.handle I.resolve) v :=
    construct_eq_replaceIncludes hwf hapart
  have hdefer : (I.withAutoload false).constructTree v =
      replaceIncludes I.isInclude ((I.withAutoload false).handle (I.withAutoload false).resolve) v :=
    construct_eq_replaceIncludes hwf hapart
  rw [heager, hdefer]
  constructor
  · intro h
    obtain ⟨d, hd, hw⟩ := (hsplit.returns_iff s w s').mp h
    exact ⟨d, s, hd, hw⟩
  · rintro ⟨d, s₁, hd, hw⟩
    obtain ⟨rfl, -⟩ := hsplit.still.returns hd
    exact (hsplit.returns_iff s w s').mpr ⟨d, hd, hw⟩

def missingAndOther : Value :=
  .sequence [
    .tagged includeTag (.mapping [(.string "urlpath", .string "a"), (.string "default", .bool true)]),
    .tagged ⟨"other"⟩ (.tagged includeTag (.string "b"))]

theorem constructTree_iff_deferred_missing :
    missingAndOther.WellFormed ∧ missingAndOther.Apart (Memory.noting [("b", "")]).isInclude ∧
      ((Memory.noting [("b", "")]).constructTree missingAndOther).Returns []
        (.sequence [.bool true, .tagged ⟨"other"⟩ .null]) [.openOne "a" {}, .openOne "b" {}] ∧
      ∃ d s₁,
        (((Memory.noting [("b", "")]).withAutoload false).constructTree missingAndOther).Returns [] d s₁ ∧
        ((Memory.noting [("b", "")]).walk true d).Returns s₁
          (.sequence [.bool true, .tagged ⟨"other"⟩ .null]) [.openOne "a" {}, .openOne "b" {}] := by
  have hd : Entries.Distinct [(.string "urlpath", .string "a"), (.string "default", .bool true)] := by
    unfold Entries.Distinct
    decide
  have hwf : missingAndOther.WellFormed := by
    unfold Value.WellFormed
    simp [missingAndOther, Value.HasDistinctKeys, hd]
  have hother : (Memory.noting [("b", "")]).isInclude ⟨"other"⟩ = false := by decide
  have hapart : missingAndOther.Apart (Memory.noting [("b", "")]).isInclude := by
    unfold Value.Apart
    simp [missingAndOther, Value.keys, Value.parts, Value.isInclude, Value.FreeOf, hother]
  have heager : ((Memory.noting [("b", "")]).constructTree missingAndOther).Returns []
      (.sequence [.bool true, .tagged ⟨"other"⟩ .null]) [.openOne "a" {}, .openOne "b" {}] := by
    rfl
  refine ⟨hwf, hapart, heager, ?_⟩
  exact (constructTree_iff_deferred rfl (.inl rfl) hwf hapart true _ _ _).mp heager

end Includer
end Transclusion
