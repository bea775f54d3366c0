import Transclusion.Proofs.Directives.Grammar

/-!
# What becomes of each entry of the mapping form

* `Directive.Supplies` : an entry says what the target, flattening or the default is;
* `Directive.Disguised` : a key reads as a reserved one but is not that text, being tagged;
* `Directive.ofNode_keeps` : all entries are accounted for but those under such keys;
* `Directive.ofNode_loses` : these are in no part of the directive.
-/

namespace Transclusion
namespace Directive

variable {es : Entries} {d : Directive} {k v : Value} {e : Value × Value}

/-- The entry says what the target, flattening or the default of the directive is. -/
inductive Supplies (d : Directive) : Value × Value → Prop
  | target {k v : Value} (hk : k = .string urlpathKey ∨ k = .string targetKey) (h : Spells v d.target) : Supplies d (k, v)
  | flatten {v : Value} (h : Flag v d.flatten) : Supplies d (.string flattenKey, v)
  | default {v : Value} (h : d.default = some v) : Supplies d (.string defaultKey, v)

/-- A tagged key that reads as a reserved one. -/
def Disguised (k : Value) : Prop := ∃ t v, k = .tagged t v ∧ ∃ key ∈ reservedKeys, v.text? = some key

theorem isReservedKey_iff :
    isReservedKey k = true ↔ (∃ key ∈ reservedKeys, k = .string key) ∨ Disguised k := by
  have hplain : (∀ t v, k ≠ .tagged t v) → ¬ Disguised k := by
    rintro hne ⟨t, v, rfl, -⟩
    exact hne t v rfl
  cases k with
  | tagged t v =>
    have hdisguised : Disguised (.tagged t v) ↔ ∃ key ∈ reservedKeys, v.text? = some key := by
      constructor
      · rintro ⟨t, v, heq, h⟩
        cases heq
        exact h
      · exact fun h => ⟨t, v, rfl, h⟩
    simp [isReservedKey, hdisguised, Option.any_eq_true, and_comm]
  | string s => simp [isReservedKey_string, hplain]
  | _ => simp [isReservedKey, Value.text?, Value.untagged, hplain]

theorem not_disguised_string (s : String) : ¬ Disguised (.string s) := by
  rintro ⟨t, v, heq, -⟩
  cases heq

/-! ## Entries in use -/

theorem Supplies.key (h : Supplies d e) : ∃ key ∈ reservedKeys, e.1 = .string key := by
  cases h with
  | target hk =>
    rcases hk with rfl | rfl
    · exact ⟨urlpathKey, by decide, rfl⟩
    · exact ⟨targetKey, by decide, rfl⟩
  | flatten => exact ⟨flattenKey, by decide, rfl⟩
  | default => exact ⟨defaultKey, by decide, rfl⟩

theorem spells_of_ofMapping (hd : Entries.Distinct es) (h : ofMapping es = .ok d) :
    ∃ v, AsTarget es v ∧ Spells v d.target := by
  have hout := outcome_ofMapping hd
  rw [h] at hout
  cases hout with
  | stated hs =>
    obtain ⟨v, hv, hnames⟩ := (stated_mapping_iff.mp hs).1.names
    exact ⟨v, hv, hnames.spells⟩

theorem supplies_of_reserved (hd : Entries.Distinct es) (h : ofMapping es = .ok d) {key : String}
    (hkey : key ∈ reservedKeys) (he : (.string key, v) ∈ es) : Supplies d (.string key, v) := by
  have hget := (Entries.get?_eq_some_iff hd).mpr he
  have hunique : ∀ w, (.string key, w) ∈ es → v = w := by
    intro w hw
    rw [← Entries.get?_eq_some_iff hd, hget] at hw
    exact Option.some_inj.mp hw
  obtain ⟨w, hw, hspells⟩ := spells_of_ofMapping hd h
  have hcases : key = urlpathKey ∨ key = targetKey ∨ key = flattenKey ∨ key = defaultKey := by
    simpa [reservedKeys] using hkey
  rcases hcases with rfl | rfl | rfl | rfl
  · rcases hw with ⟨hw, -⟩ | ⟨-, hnone⟩
    · exact .target (.inl rfl) (hunique w hw ▸ hspells)
    · exact absurd he (hnone v)
  · rcases hw with ⟨-, hnone⟩ | ⟨hw, -⟩
    · exact absurd he (hnone v)
    · exact .target (.inr rfl) (hunique w hw ▸ hspells)
  · obtain ⟨-, -, -, hflatten, -⟩ := ofMapping_eq_ok h
    rw [mappingFlatten, hget] at hflatten
    exact .flatten (flattenFlag_eq_ok_iff.mp hflatten)
  · obtain ⟨-, -, -, -, hdefault⟩ := ofMapping_eq_ok h
    exact .default (hdefault.trans hget)

/-- **The entries of a mapping that is read are kept, unless the key is a reserved one under a tag.** Each of the others
says what the target, flattening or the default is, or else is a named parameter as it stands; named parameters are in
the order of the mapping, and there are no more. -/
theorem ofNode_keeps (hd : Entries.Distinct es) (h : ofNode (.mapping es) = .ok d) :
    d.named.Sublist es ∧ (∀ e ∈ d.named, ¬ Supplies d e) ∧
      ∀ e ∈ es, (Supplies d e ∨ e ∈ d.named) ↔ ¬ Disguised e.1 := by
  obtain ⟨-, -, hnamed, -⟩ := ofMapping_eq_ok h
  have hmem : ∀ e, e ∈ d.named ↔ e ∈ es ∧ isReservedKey e.1 = false := by simp [hnamed]
  refine ⟨hnamed ▸ List.filter_sublist, fun e he hs => ?_, fun e he => ⟨?_, fun hplain => ?_⟩⟩
  · have hreserved : isReservedKey e.1 = true := isReservedKey_iff.mpr (.inl hs.key)
    rw [((hmem e).mp he).2] at hreserved
    cases hreserved
  · rintro (hs | he) hdisguised
    · obtain ⟨key, -, hkey⟩ := hs.key
      exact not_disguised_string key (hkey ▸ hdisguised)
    · have hreserved : isReservedKey e.1 = true := isReservedKey_iff.mpr (.inr hdisguised)
      rw [((hmem e).mp he).2] at hreserved
      cases hreserved
  · cases hreserved : isReservedKey e.1 with
    | false => exact .inr ((hmem e).mpr ⟨he, hreserved⟩)
    | true =>
      obtain ⟨key, hkey, heq⟩ := (isReservedKey_iff.mp hreserved).resolve_right hplain
      obtain ⟨k, v⟩ := e
      cases heq
      exact .inl (supplies_of_reserved hd h hkey he)

def fullEntries : Entries :=
  [(.string "open", .string "rb"), (.string "target", .string "a.yaml"), (.string "flatten", .bool true),
    (.tagged ⟨"x"⟩ (.string "glob"), .null), (.string "default", .null)]

theorem ofNode_keeps_all : Entries.Distinct fullEntries ∧ ∃ d, ofNode (.mapping fullEntries) = .ok d ∧
    d.named = [(.string "open", .string "rb"), (.tagged ⟨"x"⟩ (.string "glob"), .null)] ∧
      ∀ e ∈ fullEntries, Supplies d e ∨ e ∈ d.named := by
  have hd : Entries.Distinct fullEntries := by
    unfold Entries.Distinct
    decide
  obtain ⟨d, h, hnamed⟩ : ∃ d, ofNode (.mapping fullEntries) = .ok d ∧
      d.named = [(.string "open", .string "rb"), (.tagged ⟨"x"⟩ (.string "glob"), .null)] := ⟨_, rfl, rfl⟩
  have hplain : ∀ e ∈ fullEntries, ¬ Disguised e.1 := by
    have htagged : ¬ Disguised (.tagged ⟨"x"⟩ (.string "glob")) := by
      rintro ⟨t, v, heq, key, hkey, htext⟩
      cases heq
      cases htext
      exact absurd hkey (by decide)
    simp [fullEntries, not_disguised_string, htagged]
  exact ⟨hd, d, h, hnamed, fun e he => ((ofNode_keeps hd h).2.2 e he).mpr (hplain e he)⟩

def disguisedEntries : Entries :=
  [(.string "urlpath", .string "a.yaml"), (.tagged ⟨"x"⟩ (.string "flatten"), .bool true)]

/-- What is under the tagged key neither flattens nor is a parameter. -/
theorem ofNode_loses : Entries.Distinct disguisedEntries ∧ ∃ d, ofNode (.mapping disguisedEntries) = .ok d ∧
    d.flatten = false ∧ d.named = [] ∧ ∃ e ∈ disguisedEntries, ¬ (Supplies d e ∨ e ∈ d.named) := by
  have hd : Entries.Distinct disguisedEntries := by
    unfold Entries.Distinct
    decide
  obtain ⟨d, h, hflatten, hnamed⟩ : ∃ d, ofNode (.mapping disguisedEntries) = .ok d ∧
      d.flatten = false ∧ d.named = [] := ⟨_, rfl, rfl, rfl⟩
  refine ⟨hd, d, h, hflatten, hnamed, (.tagged ⟨"x"⟩ (.string "flatten"), .bool true), by simp [disguisedEntries], ?_⟩
  rintro (hs | he)
  · obtain ⟨key, -, hkey⟩ := hs.key
    cases hkey
  · rw [hnamed] at he
    cases he

end Directive
end Transclusion
