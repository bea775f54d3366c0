import Transclusion.Proofs.Values.Nodes
import Transclusion.Walk.Location

/-!
# Keys of a mapping

* `Value.same_refl` : a value is the same as itself;
* `Entries.Distinct` : what adding an entry, and inserting one, does to distinct keys;
* `Entries.ofPairs_of_distinct` : inserting entries with distinct keys one by one gives them back;
* `Entries.find?_append`, `Entries.replace_append` : an entry is found and replaced at its own place.
-/

namespace Transclusion

/-! ## Sameness -/

namespace Value

theorem sameAll_refl {items : List Value} (h : ∀ v ∈ items, v.same v = true) :
    sameAll items items = true := by
  induction items with
  | nil => rfl
  | cons v rest ih =>
    rw [sameAll, h v List.mem_cons_self, ih fun w hw => h w (List.mem_cons_of_mem v hw)]
    rfl

theorem within_of_subset {es all : Entries} (hsub : es ⊆ all)
    (h : ∀ e ∈ es, e.1.same e.1 = true ∧ e.2.same e.2 = true) : within es all = true := by
  induction es with
  | nil => rfl
  | cons e rest ih =>
    have hrest := ih (List.subset_of_cons_subset hsub) fun f hf => h f (List.mem_cons_of_mem e hf)
    have he : all.any (fun f => e.1.same f.1 && e.2.same f.2) = true := by
      refine List.any_eq_true.mpr ⟨e, hsub List.mem_cons_self, ?_⟩
      simp [h e List.mem_cons_self]
    rw [within, he, hrest]
    rfl

theorem same_refl (v : Value) : v.same v = true := by
  induction v using inductionOn with
  | null => rfl
  | bool b => simp [same]
  | number n => simp [same, Number.same_refl]
  | string s => simp [same]
  | sequence items ih => rw [same, sameAll_refl ih]
  | mapping es ih => simp [same, within_of_subset (List.Subset.refl es) ih]
  | tagged t v ih => simp [same, Tag.same_refl, ih]

theorem eq_of_string_same {s : String} {v : Value} (h : (string s).same v = true) : v = .string s := by
  cases v <;> simp_all [same]

theorem eq_of_same_string {s : String} {v : Value} (h : v.same (.string s) = true) : v = .string s := by
  cases v <;> simp_all [same]

end Value

/-! ## Distinct keys -/

namespace Entries

theorem isKey_iff {key : String} {k : Value} : isKey key k = true ↔ k = .string key := by
  cases k <;> simp [isKey]

theorem hasKey_eq_false_iff {k : Value} {es : Entries} :
    hasKey k es = false ↔ ∀ e ∈ es, k.same e.1 = false := by
  induction es with
  | nil => simp [hasKey]
  | cons e rest ih => simp [hasKey, ih]

theorem distinct_nil : Distinct [] := List.Pairwise.nil

theorem distinct_concat {es : Entries} {k v : Value} :
    Distinct (es ++ [(k, v)]) ↔ Distinct es ∧ hasKey k es = false := by
  rw [Distinct, List.pairwise_append, hasKey_eq_false_iff, Distinct]
  simp

/-- Distinctness is about the keys alone. -/
theorem distinct_iff_keys {es : Entries} :
    Distinct es ↔ (es.map (·.1)).Pairwise fun earlier later => later.same earlier = false := by
  rw [Distinct, List.pairwise_map]

theorem Distinct.congr_keys {es fs : Entries} (h : Distinct es) (hk : fs.map (·.1) = es.map (·.1)) :
    Distinct fs := by
  rw [distinct_iff_keys] at h ⊢
  rwa [hk]

theorem Distinct.sublist {es fs : Entries} (h : Distinct es) (hs : fs.Sublist es) : Distinct fs :=
  List.Pairwise.sublist hs h

theorem keys_insert_of_hasKey {es : Entries} {k : Value} (h : hasKey k es = true) (v : Value) :
    (insert es k v).map (·.1) = es.map (·.1) := by
  induction es with
  | nil => simp [hasKey] at h
  | cons e rest ih =>
    by_cases he : k.same e.1 = true
    · simp [insert, he]
    · simp only [hasKey, he, Bool.false_or] at h
      simp [insert, he, ih h]

theorem Distinct.insert {es : Entries} (h : Distinct es) (k v : Value) : Distinct (insert es k v) := by
  by_cases hk : hasKey k es = true
  · exact h.congr_keys (keys_insert_of_hasKey hk v)
  · rw [Bool.not_eq_true] at hk
    rw [insert_of_not_hasKey hk]
    exact distinct_concat.mpr ⟨h, hk⟩

theorem Distinct.extend {es : Entries} (h : Distinct es) (pairs : List (Value × Value)) :
    Distinct (extend es pairs) := by
  induction pairs generalizing es with
  | nil => exact h
  | cons p rest ih => exact ih (h.insert p.1 p.2)

theorem distinct_ofPairs (pairs : List (Value × Value)) : Distinct (ofPairs pairs) :=
  distinct_nil.extend pairs

theorem extend_of_distinct {es fs : Entries} (h : Distinct (es ++ fs)) : extend es fs = es ++ fs := by
  induction fs generalizing es with
  | nil => simp [extend]
  | cons e rest ih =>
    have hassoc : es ++ e :: rest = (es ++ [e]) ++ rest := by simp
    rw [hassoc] at h ⊢
    have hnew : hasKey e.1 es = false := (distinct_concat.mp (h.sublist (List.sublist_append_left _ _))).2
    calc extend es (e :: rest) = extend (es ++ [e]) rest := by
          rw [← insert_of_not_hasKey hnew e.2]
          rfl
      _ = (es ++ [e]) ++ rest := ih h

theorem ofPairs_of_distinct {es : Entries} (h : Distinct es) : ofPairs es = es := by
  have hnil : Distinct ([] ++ es) := h
  exact extend_of_distinct hnil

/-! ## What an insertion brings in -/

theorem forall_mem_insert {R S : Value → Prop} {es : Entries} (h : ∀ e ∈ es, R e.1 ∧ S e.2)
    {k v : Value} (hk : R k) (hv : S v) : ∀ e ∈ insert es k v, R e.1 ∧ S e.2 := by
  induction es with
  | nil => simpa [insert] using ⟨hk, hv⟩
  | cons e rest ih =>
    have he := h e List.mem_cons_self
    have hrest := ih fun f hf => h f (List.mem_cons_of_mem e hf)
    intro f hf
    rw [insert] at hf
    split at hf
    · rcases List.mem_cons.mp hf with rfl | hf
      · exact ⟨he.1, hv⟩
      · exact h f (List.mem_cons_of_mem e hf)
    · rcases List.mem_cons.mp hf with rfl | hf
      · exact he
      · exact hrest f hf

theorem forall_mem_extend {R S : Value → Prop} {es pairs : Entries} (h : ∀ e ∈ es, R e.1 ∧ S e.2)
    (hp : ∀ e ∈ pairs, R e.1 ∧ S e.2) : ∀ e ∈ extend es pairs, R e.1 ∧ S e.2 := by
  induction pairs generalizing es with
  | nil => exact h
  | cons p rest ih =>
    have hfirst := hp p List.mem_cons_self
    exact ih (forall_mem_insert h hfirst.1 hfirst.2) fun e he => hp e (List.mem_cons_of_mem p he)

theorem forall_mem_ofPairs {R S : Value → Prop} {pairs : Entries} (hp : ∀ e ∈ pairs, R e.1 ∧ S e.2) :
    ∀ e ∈ ofPairs pairs, R e.1 ∧ S e.2 :=
  forall_mem_extend (by simp) hp

/-! ## An entry at its place -/

theorem Distinct.key_ne {before after : Entries} {k v : Value} (h : Distinct (before ++ (k, v) :: after)) :
    ∀ e ∈ before, k.same e.1 = false := by
  rw [Distinct, List.pairwise_append] at h
  exact fun e he => h.2.2 e he (k, v) List.mem_cons_self

theorem find?_append {before after : Entries} {k v : Value} (h : Distinct (before ++ (k, v) :: after)) :
    find? k (before ++ (k, v) :: after) = some v := by
  have hne := h.key_ne
  clear h
  induction before with
  | nil => simp [find?, Value.same_refl]
  | cons e rest ih =>
    rw [List.cons_append, find?, hne e List.mem_cons_self]
    exact ih fun f hf => hne f (List.mem_cons_of_mem e hf)

theorem replace_append {before after : Entries} {k v : Value} (h : Distinct (before ++ (k, v) :: after))
    (w : Value) : replace k w (before ++ (k, v) :: after) = before ++ (k, w) :: after := by
  have hne := h.key_ne
  clear h
  induction before with
  | nil => simp [replace, Value.same_refl]
  | cons e rest ih =>
    rw [List.cons_append, replace, hne e List.mem_cons_self]
    exact congrArg (e :: ·) (ih fun f hf => hne f (List.mem_cons_of_mem e hf))

end Entries
end Transclusion
