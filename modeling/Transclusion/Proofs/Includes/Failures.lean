import Transclusion.Format.Basic
import Transclusion.Proofs.Runs
import Transclusion.Proofs.Values.Nodes

/-!
# The first failure

A tree fails as the first of its includes that fails does, and a text that is no document fails by
itself.

* `FirstFailure` : the first include of a tree that fails, all before it having been constructed;
* `construct_ends_error_iff` : what a tree fails with;
* `Format.Rejects` : a text is none of a format (`Format.parse_ends_error_iff`);
* `Includer.loadWith_ends_fault_iff`, `Includer.parseTextWith_ends_fault_iff` : what texts fail with.
-/

namespace Transclusion

open Run

variable {σ : Type}

/-! ## Trees -/

section Trees
variable (isIncludeTag : Tag → Bool) (handle : Value → Run (StateM σ) Value)

/-- In a tree that is constructed from a state on there is a first include that fails. It fails with
`e` and leaves the state `s'`; its payload, and all that comes before it, has been constructed. -/
inductive FirstFailure (e : Failure) (s' : σ) : σ → Value → Prop
  | raised {t : Tag} {p w : Value} {s s₁ : σ} (ht : isIncludeTag t = true)
      (hp : (construct isIncludeTag handle p).Returns s w s₁) (h : (handle w).Ends s₁ (.error e) s') :
      FirstFailure e s' s (.tagged t p)
  | under {t : Tag} {p : Value} {s : σ} (h : FirstFailure e s' s p) : FirstFailure e s' s (.tagged t p)
  | item {before after ws : List Value} {v : Value} {s s₁ : σ}
      (hbefore : (constructAll isIncludeTag handle before).Returns s ws s₁)
      (h : FirstFailure e s' s₁ v) : FirstFailure e s' s (.sequence (before ++ v :: after))
  | key {before after fs : Entries} {k v : Value} {s s₁ : σ}
      (hbefore : (constructEntries isIncludeTag handle before).Returns s fs s₁)
      (h : FirstFailure e s' s₁ k) : FirstFailure e s' s (.mapping (before ++ (k, v) :: after))
  | value {before after fs : Entries} {k v w : Value} {s s₁ s₂ : σ}
      (hbefore : (constructEntries isIncludeTag handle before).Returns s fs s₁)
      (hk : (construct isIncludeTag handle k).Returns s₁ w s₂) (h : FirstFailure e s' s₂ v) :
      FirstFailure e s' s (.mapping (before ++ (k, v) :: after))

variable {isIncludeTag handle} {e : Failure} {s s' : σ}

theorem constructAll_ends_error_iff {items : List Value} :
    (constructAll isIncludeTag handle items).Ends s (.error e) s' ↔
      ∃ before v after ws s₁, items = before ++ v :: after ∧
        (constructAll isIncludeTag handle before).Returns s ws s₁ ∧
        (construct isIncludeTag handle v).Ends s₁ (.error e) s' := by
  induction items generalizing s with
  | nil =>
    constructor
    · intro h
      exact absurd h not_ends_error_pure
    · rintro ⟨before, v, after, ws, s₁, h, -⟩
      cases before <;> cases h
  | cons u rest ih =>
    rw [constructAll, ends_error_bind]
    constructor
    · rintro (h | ⟨w, s₁, hw, h⟩)
      · exact ⟨[], u, rest, [], s, rfl, returns_pure.mpr ⟨rfl, rfl⟩, h⟩
      · obtain ⟨before, v, after, ws, s₂, rfl, hbefore, hv⟩ := ih.mp (ends_error_map.mp h)
        refine ⟨u :: before, v, after, w :: ws, s₂, rfl, ?_, hv⟩
        rw [constructAll]
        exact returns_bind.mpr ⟨w, s₁, hw, returns_map.mpr ⟨ws, hbefore, rfl⟩⟩
    · rintro ⟨before, v, after, ws, s₁, hitems, hbefore, hv⟩
      cases before with
      | nil =>
        cases hitems
        obtain ⟨-, rfl⟩ := returns_pure.mp hbefore
        exact .inl hv
      | cons b bs =>
        cases hitems
        rw [constructAll] at hbefore
        obtain ⟨w, s₂, hw, hrest⟩ := returns_bind.mp hbefore
        obtain ⟨vs, hvs, -⟩ := returns_map.mp hrest
        exact .inr ⟨w, s₂, hw, ends_error_map.mpr (ih.mpr ⟨bs, v, after, vs, s₁, rfl, hvs, hv⟩)⟩

theorem constructEntries_ends_error_iff {es : Entries} :
    (constructEntries isIncludeTag handle es).Ends s (.error e) s' ↔
      ∃ before k v after fs s₁, es = before ++ (k, v) :: after ∧
        (constructEntries isIncludeTag handle before).Returns s fs s₁ ∧
        ((construct isIncludeTag handle k).Ends s₁ (.error e) s' ∨
          ∃ w s₂, (construct isIncludeTag handle k).Returns s₁ w s₂ ∧
            (construct isIncludeTag handle v).Ends s₂ (.error e) s') := by
  induction es generalizing s with
  | nil =>
    constructor
    · intro h
      exact absurd h not_ends_error_pure
    · rintro ⟨before, k, v, after, fs, s₁, h, -⟩
      cases before <;> cases h
  | cons f rest ih =>
    obtain ⟨k, v⟩ := f
    rw [constructEntries, ends_error_bind]
    constructor
    · rintro (h | ⟨key, s₁, hkey, h⟩)
      · exact ⟨[], k, v, rest, [], s, rfl, returns_pure.mpr ⟨rfl, rfl⟩, .inl h⟩
      · rcases ends_error_bind.mp h with h | ⟨w, s₂, hw, h⟩
        · exact ⟨[], k, v, rest, [], s, rfl, returns_pure.mpr ⟨rfl, rfl⟩, .inr ⟨key, s₁, hkey, h⟩⟩
        · obtain ⟨before, k', v', after, fs, s₃, rfl, hbefore, hend⟩ := ih.mp (ends_error_map.mp h)
          refine ⟨(k, v) :: before, k', v', after, (key, w) :: fs, s₃, rfl, ?_, hend⟩
          rw [constructEntries]
          exact returns_bind.mpr ⟨key, s₁, hkey,
            returns_bind.mpr ⟨w, s₂, hw, returns_map.mpr ⟨fs, hbefore, rfl⟩⟩⟩
    · rintro ⟨before, k', v', after, fs, s₁, hes, hbefore, hend⟩
      cases before with
      | nil =>
        cases hes
        obtain ⟨-, rfl⟩ := returns_pure.mp hbefore
        rcases hend with h | ⟨key, s₂, hkey, h⟩
        · exact .inl h
        · exact .inr ⟨key, s₂, hkey, ends_error_bind.mpr (.inl h)⟩
      | cons b bs =>
        cases hes
        rw [constructEntries] at hbefore
        obtain ⟨key, s₂, hkey, hbefore⟩ := returns_bind.mp hbefore
        obtain ⟨w, s₃, hw, hrest⟩ := returns_bind.mp hbefore
        obtain ⟨gs, hgs, -⟩ := returns_map.mp hrest
        refine .inr ⟨key, s₂, hkey, ends_error_bind.mpr (.inr ⟨w, s₃, hw, ?_⟩)⟩
        exact ends_error_map.mpr (ih.mpr ⟨bs, k', v', after, gs, s₁, rfl, hgs, hend⟩)

/-- What a tree fails with is what the first of its includes that fails fails with. -/
theorem construct_ends_error_iff {v : Value} :
    (construct isIncludeTag handle v).Ends s (.error e) s' ↔
      FirstFailure isIncludeTag handle e s' s v := by
  constructor
  · intro h
    induction v using Value.inductionOn generalizing s with
    | null => exact absurd h not_ends_error_pure
    | bool b => exact absurd h not_ends_error_pure
    | number n => exact absurd h not_ends_error_pure
    | string text => exact absurd h not_ends_error_pure
    | sequence items ih =>
      rw [construct, ends_error_map] at h
      obtain ⟨before, v, after, ws, s₁, rfl, hbefore, hv⟩ := constructAll_ends_error_iff.mp h
      exact .item hbefore (ih v (List.mem_append_right _ List.mem_cons_self) hv)
    | mapping es ih =>
      rw [construct, ends_error_map] at h
      obtain ⟨before, k, v, after, fs, s₁, rfl, hbefore, hend⟩ := constructEntries_ends_error_iff.mp h
      have hentry := ih (k, v) (List.mem_append_right _ List.mem_cons_self)
      rcases hend with h | ⟨w, s₂, hw, h⟩
      · exact .key hbefore (hentry.1 h)
      · exact .value hbefore hw (hentry.2 h)
    | tagged t p ih =>
      rw [construct, ends_error_bind] at h
      rcases h with h | ⟨w, s₁, hw, h⟩
      · exact .under (ih h)
      · by_cases ht : isIncludeTag t = true
        · rw [if_pos ht] at h
          exact .raised ht hw h
        · rw [if_neg ht] at h
          exact absurd h not_ends_error_pure
  · intro h
    induction h with
    | raised ht hp h =>
      rw [construct, ends_error_bind]
      refine .inr ⟨_, _, hp, ?_⟩
      rw [if_pos ht]
      exact h
    | under h ih =>
      rw [construct, ends_error_bind]
      exact .inl ih
    | item hbefore h ih =>
      rw [construct, ends_error_map]
      exact constructAll_ends_error_iff.mpr ⟨_, _, _, _, _, rfl, hbefore, ih⟩
    | key hbefore h ih =>
      rw [construct, ends_error_map]
      exact constructEntries_ends_error_iff.mpr ⟨_, _, _, _, _, _, rfl, hbefore, .inl ih⟩
    | value hbefore hk h ih =>
      rw [construct, ends_error_map]
      exact constructEntries_ends_error_iff.mpr ⟨_, _, _, _, _, _, rfl, hbefore, .inr ⟨_, _, hk, ih⟩⟩

/-- What the includes of a tree can fail with is what is told of the first failure. -/
theorem FirstFailure.raised_by {P : Failure → Prop} {v : Value}
    (hP : ∀ w s e s', (handle w).Ends s (.error e) s' → P e)
    (h : FirstFailure isIncludeTag handle e s' s v) : P e := by
  induction h with
  | raised ht hp h => exact hP _ _ _ _ h
  | under h ih => exact ih
  | item hbefore h ih => exact ih
  | key hbefore h ih => exact ih
  | value hbefore hk h ih => exact ih

end Trees

/-! ## Formats -/

/-- The text is none of the format, for a reason. Every text is a plain one. -/
inductive Format.Rejects : Format → String → ParseFault → Prop
  | yaml {text : String} {cause : YamlFault} (h : Value.ofYaml text = .error cause) :
      Rejects .yaml text (.yaml cause)
  | json {text : String} (h : Value.ofJson? text = none) : Rejects .json text .json
  | toml {text : String} (h : Value.ofToml? text = none) : Rejects .toml text .toml
  | ini {text : String} {cause : IniFault} (h : Value.ofIni text = .error cause) :
      Rejects .ini text (.ini cause)

theorem Format.orFault_eq_error_iff {path : String} {cause : ParseFault} {x : Option Value} {f : Fault} :
    orFault path cause x = .error f ↔ x = none ∧ .parse path cause = f := by
  cases x <;> simp [orFault]

/-- Only a document text can fail in another way than by not being of its format. -/
theorem Format.parse_ends_error_iff {f : Format} {parseText : String → String → Run (StateM σ) Value}
    {path text : String} {e : Failure} {s s' : σ} (hf : f ≠ .yaml) :
    (f.parse parseText path text).Ends s (.error e) s' ↔
      ∃ cause, f.Rejects text cause ∧ .fault (.parse path cause) = e ∧ s = s' := by
  unfold Format.parse
  cases f with
  | yaml => exact absurd rfl hf
  | json =>
    simp only [ends_error_ofExcept, orFault_eq_error_iff]
    constructor
    · rintro ⟨g, ⟨hnone, rfl⟩, he, hs⟩
      exact ⟨.json, .json hnone, he, hs⟩
    · rintro ⟨cause, h, he, hs⟩
      cases h with | json hnone => exact ⟨_, ⟨hnone, rfl⟩, he, hs⟩
  | toml =>
    simp only [ends_error_ofExcept, orFault_eq_error_iff]
    constructor
    · rintro ⟨g, ⟨hnone, rfl⟩, he, hs⟩
      exact ⟨.toml, .toml hnone, he, hs⟩
    · rintro ⟨cause, h, he, hs⟩
      cases h with | toml hnone => exact ⟨_, ⟨hnone, rfl⟩, he, hs⟩
  | ini =>
    dsimp only
    cases hread : Value.ofIni text with
    | ok v =>
      constructor
      · intro h
        exact absurd h not_ends_error_pure
      · rintro ⟨cause, h, -⟩
        cases h with | ini herror => rw [hread] at herror; cases herror
    | error cause =>
      dsimp only [raise]
      rw [ends_error_throw]
      constructor
      · rintro ⟨he, hs⟩
        exact ⟨_, .ini hread, he, hs⟩
      · rintro ⟨cause', h, he, hs⟩
        cases h with
        | ini herror =>
          rw [hread] at herror
          cases herror
          exact ⟨he, hs⟩
  | plain =>
    constructor
    · intro h
      exact absurd h not_ends_error_pure
    · rintro ⟨cause, h, -⟩
      cases h

/-! ## Document texts -/

namespace Includer

variable {I : Includer (StateM σ)} {path text : String} {f : Fault} {s s' : σ}

/-- A text that is no document is at fault itself. Otherwise the fault is that of an include. -/
theorem loadWith_ends_fault_iff {resolve : Directive → Run (StateM σ) Value} :
    (I.loadWith resolve text).Ends s (.error (.fault f)) s' ↔
      (∃ cause, Value.ofYaml text = .error cause ∧ .yaml cause = f ∧ s = s') ∨
        ∃ v, Value.ofYaml text = .ok v ∧
          FirstFailure I.isInclude (I.handle resolve) (.fault f) s' s v := by
  unfold loadWith
  cases hread : Value.ofYaml text with
  | error cause =>
    dsimp only [ofYaml, raise]
    rw [ends_error_bind, ends_error_throw]
    constructor
    · rintro (⟨he, hs⟩ | ⟨v, s₁, h, -⟩)
      · cases he
        exact .inl ⟨cause, rfl, rfl, hs⟩
      · exact absurd h not_returns_throw
    · rintro (⟨cause', hc, rfl, hs⟩ | ⟨v, hv, -⟩)
      · cases hc
        exact .inl ⟨rfl, hs⟩
      · cases hv
  | ok v =>
    dsimp only [ofYaml]
    rw [pure_bind, constructWith, construct_ends_error_iff]
    constructor
    · intro h
      exact .inr ⟨v, rfl, h⟩
    · rintro (⟨cause, hc, -⟩ | ⟨v', hv, h⟩)
      · cases hc
      · cases hv
        exact h

/-- The same for the text of a file, which is told of if the text is at fault itself. -/
theorem parseTextWith_ends_fault_iff {resolve : Directive → Run (StateM σ) Value} :
    (I.parseTextWith resolve path text).Ends s (.error (.fault f)) s' ↔
      (∃ cause, Value.ofYaml text = .error cause ∧ .parse path (.yaml cause) = f ∧ s = s') ∨
        ∃ v g, Value.ofYaml text = .ok v ∧
          FirstFailure I.isInclude (I.handle resolve) (.fault g) s' s v ∧ g.named path = f := by
  unfold parseTextWith
  rw [ends_fault_mapFault]
  simp only [loadWith_ends_fault_iff]
  constructor
  · rintro ⟨g, ⟨cause, hread, rfl, hs⟩ | ⟨v, hv, h⟩, hf⟩
    · exact .inl ⟨cause, hread, hf, hs⟩
    · exact .inr ⟨v, g, hv, h, hf⟩
  · rintro (⟨cause, hread, hf, hs⟩ | ⟨v, g, hv, h, hf⟩)
    · exact ⟨.yaml cause, .inl ⟨cause, hread, rfl, hs⟩, hf⟩
    · exact ⟨g, .inr ⟨v, hv, h⟩, hf⟩

end Includer
end Transclusion
