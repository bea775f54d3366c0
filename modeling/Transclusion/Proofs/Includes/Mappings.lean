import Transclusion.Proofs.Values.Keys
import Transclusion.Proofs.Walks.Reemission

/-!
# Mappings of a constructed tree

Keys are constructed too, so that keys that differ in the document may become the same value.

* `Entries.length_ofPairs_eq_iff` : inserting pairs keeps all of them if and only if their keys are distinct;
* `Includer.Builds` : what each mapping outside of includes becomes, by the entries that are constructed for it;
* `Includer.builds_of_returns` : whatever follows of the entries of a mapping holds of all of them;
* `Includer.constructTree_entries` : a mapping keeps all its entries if and only if its keys stay distinct;
* `Includer.constructTree_drops` : an entry is lost where a key becomes one that is there already.
-/

namespace Transclusion

/-! ## How many pairs are kept -/

namespace Entries

theorem length_extend_le (es pairs : Entries) : (extend es pairs).length ≤ es.length + pairs.length := by
  induction pairs generalizing es with
  | nil => exact Nat.le_refl _
  | cons p rest ih =>
    have hrest := ih (insert es p.1 p.2)
    have hinsert := length_insert es p.1 p.2
    change (extend (insert es p.1 p.2) rest).length ≤ _
    split at hinsert <;> simp only [List.length_cons] <;> omega

theorem length_extend_eq_iff {es pairs : Entries} (h : Distinct es) :
    (extend es pairs).length = es.length + pairs.length ↔ Distinct (es ++ pairs) := by
  refine ⟨fun hlength => ?_, fun hdistinct => by rw [extend_of_distinct hdistinct, List.length_append]⟩
  induction pairs generalizing es with
  | nil => simpa using h
  | cons p rest ih =>
    change (extend (insert es p.1 p.2) rest).length = _ at hlength
    have hle := length_extend_le (insert es p.1 p.2) rest
    have hinsert := length_insert es p.1 p.2
    by_cases hkey : hasKey p.1 es = true
    · rw [if_pos hkey] at hinsert
      simp only [List.length_cons] at hlength
      omega
    · rw [Bool.not_eq_true] at hkey
      have hnext := ih (h.insert p.1 p.2)
      rw [insert_of_not_hasKey hkey] at hnext hlength
      simp only [List.length_append, List.length_cons, List.length_nil] at hnext hlength
      simpa using hnext (by omega)

/-- Inserting pairs one by one keeps all of them if and only if their keys are distinct. -/
theorem length_ofPairs_eq_iff {pairs : Entries} : (ofPairs pairs).length = pairs.length ↔ Distinct pairs := by
  have h := @length_extend_eq_iff [] pairs distinct_nil
  rwa [List.length_nil, Nat.zero_add, List.nil_append] at h

end Entries

/-! ## Mappings outside of includes -/

/-- The nodes right below a node, the payloads of includes left out. -/
def Value.outer (isIncludeTag : Tag → Bool) : Value → List Value
  | .tagged t v => if isIncludeTag t then [] else [v]
  | v => v.parts

namespace Includer

open Run

variable {σ : Type}

mutual

/-- From the state `s` the tree becomes `w`, and `s'` is left. An include becomes whatever it is constructed as, and
every other node is built of what its parts become, one after the other. `rule es fs gs` says that a mapping with the
entries `es`, which become `fs`, is turned into a mapping with the entries `gs`. -/
def Builds (I : Includer (StateM σ)) (rule : Entries → Entries → Entries → Prop) : Value → σ → Value → σ → Prop
  | .tagged t v, s, w, s' =>
    if I.isInclude t then (I.constructTree (.tagged t v)).Returns s w s'
    else ∃ u, Builds I rule v s u s' ∧ w = .tagged t u
  | .sequence items, s, w, s' => ∃ ws, BuildsAll I rule items s ws s' ∧ w = .sequence ws
  | .mapping es, s, w, s' => ∃ fs gs, BuildsEntries I rule es s fs s' ∧ rule es fs gs ∧ w = .mapping gs
  | .null, s, w, s' => w = .null ∧ s = s'
  | .bool b, s, w, s' => w = .bool b ∧ s = s'
  | .number n, s, w, s' => w = .number n ∧ s = s'
  | .string t, s, w, s' => w = .string t ∧ s = s'

def BuildsAll (I : Includer (StateM σ)) (rule : Entries → Entries → Entries → Prop) :
    List Value → σ → List Value → σ → Prop
  | [], s, ws, s' => ws = [] ∧ s = s'
  | v :: rest, s, ws, s' => ∃ w s₁ us, Builds I rule v s w s₁ ∧ BuildsAll I rule rest s₁ us s' ∧ ws = w :: us

def BuildsEntries (I : Includer (StateM σ)) (rule : Entries → Entries → Entries → Prop) :
    Entries → σ → Entries → σ → Prop
  | [], s, fs, s' => fs = [] ∧ s = s'
  | (k, v) :: rest, s, fs, s' => ∃ k' s₁ v' s₂ us, Builds I rule k s k' s₁ ∧ Builds I rule v s₁ v' s₂ ∧
      BuildsEntries I rule rest s₂ us s' ∧ fs = (k', v') :: us

end

variable {I : Includer (StateM σ)} {rule : Entries → Entries → Entries → Prop} {v w : Value} {s s' : σ}

abbrev constructFields (I : Includer (StateM σ)) (es : Entries) : Run (StateM σ) Entries :=
  constructEntries I.isInclude (I.handle I.resolve) es

/-- What follows of the constructed entries of a mapping, wherever it is outside of includes, is how all mappings
outside of includes are built. -/
theorem builds_of_returns
    (hrule : v.All (Value.outer I.isInclude) fun n => ∀ es, n = .mapping es → ∀ s fs s',
      (I.constructFields es).Returns s fs s' → rule es fs (Entries.ofPairs fs))
    (h : (I.constructTree v).Returns s w s') : I.Builds rule v s w s' := by
  induction v using Value.inductionOn generalizing s w s' with
  | null =>
    obtain ⟨rfl, rfl⟩ := returns_pure.mp h
    exact ⟨rfl, rfl⟩
  | bool b =>
    obtain ⟨rfl, rfl⟩ := returns_pure.mp h
    exact ⟨rfl, rfl⟩
  | number n =>
    obtain ⟨rfl, rfl⟩ := returns_pure.mp h
    exact ⟨rfl, rfl⟩
  | string t =>
    obtain ⟨rfl, rfl⟩ := returns_pure.mp h
    exact ⟨rfl, rfl⟩
  | sequence items ih =>
    obtain ⟨-, hitems⟩ := Value.all_iff.mp hrule
    unfold constructTree constructWith at h
    rw [construct] at h
    obtain ⟨ws, hws, rfl⟩ := returns_map.mp h
    refine ⟨ws, ?_, rfl⟩
    clear h hrule
    induction items generalizing s ws with
    | nil =>
      obtain ⟨rfl, rfl⟩ := returns_pure.mp hws
      exact ⟨rfl, rfl⟩
    | cons v rest ihrest =>
      rw [constructAll] at hws
      obtain ⟨w, s₁, hw, hws⟩ := returns_bind.mp hws
      obtain ⟨us, hus, rfl⟩ := returns_map.mp hws
      exact ⟨w, s₁, us, ih v List.mem_cons_self (hitems v List.mem_cons_self) hw,
        ihrest (fun u hu => ih u (List.mem_cons_of_mem v hu)) (fun u hu => hitems u (List.mem_cons_of_mem v hu)) us hus,
        rfl⟩
  | mapping es ih =>
    obtain ⟨hhere, hparts⟩ := Value.all_iff.mp hrule
    unfold constructTree constructWith at h
    rw [construct] at h
    obtain ⟨fs, hfs, rfl⟩ := returns_map.mp h
    refine ⟨fs, Entries.ofPairs fs, ?_, hhere es rfl s fs s' hfs, rfl⟩
    -- The entries are gone through one by one, and the mapping that they are entries of is out of the way.
    have hes : ∀ e ∈ es, e.1.All (Value.outer I.isInclude) _ ∧ e.2.All (Value.outer I.isInclude) _ := fun e he =>
      ⟨hparts e.1 (List.mem_append_left _ (List.mem_map_of_mem he)),
        hparts e.2 (List.mem_append_right _ (List.mem_map_of_mem he))⟩
    clear h hrule hhere hparts
    induction es generalizing s fs with
    | nil =>
      obtain ⟨rfl, rfl⟩ := returns_pure.mp hfs
      exact ⟨rfl, rfl⟩
    | cons e rest ihrest =>
      rw [constructEntries] at hfs
      obtain ⟨k', s₁, hk, hfs⟩ := returns_bind.mp hfs
      obtain ⟨v', s₂, hv, hfs⟩ := returns_bind.mp hfs
      obtain ⟨us, hus, rfl⟩ := returns_map.mp hfs
      have he := ih e List.mem_cons_self
      have hall := hes e List.mem_cons_self
      exact ⟨k', s₁, v', s₂, us, he.1 hall.1 hk, he.2 hall.2 hv,
        ihrest (fun f hf => ih f (List.mem_cons_of_mem e hf)) us hus fun f hf => hes f (List.mem_cons_of_mem e hf), rfl⟩
  | tagged t v ih =>
    unfold Builds
    split
    · exact h
    · rename_i ht
      obtain ⟨-, hparts⟩ := Value.all_iff.mp hrule
      unfold constructTree constructWith at h
      rw [construct] at h
      obtain ⟨u, s₁, hu, h⟩ := returns_bind.mp h
      rw [if_neg ht] at h
      obtain ⟨rfl, rfl⟩ := returns_pure.mp h
      refine ⟨u, ih (hparts v ?_) hu, rfl⟩
      rw [Value.outer, if_neg ht]
      exact List.mem_singleton_self v

/-! ## Entries that are kept -/

theorem length_of_returns_constructFields {es fs : Entries} (h : (I.constructFields es).Returns s fs s') :
    fs.length = es.length := by
  induction es generalizing s fs with
  | nil =>
    obtain ⟨rfl, -⟩ := returns_pure.mp h
    rfl
  | cons e rest ih =>
    unfold constructFields at h
    rw [constructEntries] at h
    obtain ⟨k', s₁, -, h⟩ := returns_bind.mp h
    obtain ⟨v', s₂, -, h⟩ := returns_bind.mp h
    obtain ⟨us, hus, rfl⟩ := returns_map.mp h
    rw [List.length_cons, List.length_cons, ih hus]

theorem keys_of_returns_constructFields {es fs : Entries}
    (hkeys : ∀ e ∈ es, e.1.WellFormed ∧ e.1.FreeOf I.isInclude) (h : (I.constructFields es).Returns s fs s') :
    fs.map (·.1) = es.map (·.1) := by
  induction es generalizing s fs with
  | nil =>
    obtain ⟨rfl, -⟩ := returns_pure.mp h
    rfl
  | cons e rest ih =>
    obtain ⟨⟨hwf, hfree⟩, hrest⟩ := List.forall_mem_cons.mp hkeys
    unfold constructFields at h
    rw [constructEntries, construct_eq_self_of_free hwf hfree, pure_bind] at h
    obtain ⟨v', s₂, -, h⟩ := returns_bind.mp h
    obtain ⟨us, hus, rfl⟩ := returns_map.mp h
    rw [List.map_cons, List.map_cons, ih hrest hus]

theorem wellFormed_outer {isIncludeTag : Tag → Bool} (h : v.WellFormed) :
    v.All (Value.outer isIncludeTag) Value.WellFormed := by
  have hsub : ∀ n : Value, n.outer isIncludeTag ⊆ n.parts := by
    intro n
    cases n <;> simp [Value.outer, Value.parts]
    split <;> simp
  intro n hn m hm
  exact h m (Relation.ReflTransGen.trans (Relation.ReflTransGen.mono (fun a _ hb => hsub a hb) v n hn) hm)

/-- **A mapping keeps all its entries if and only if its keys stay distinct**, each with the key and the value that are
constructed for it, and where no key holds an include it does. -/
theorem constructTree_entries (h : (I.constructTree v).Returns s w s') :
    I.Builds (fun es fs gs => gs = .ofPairs fs ∧ gs.length ≤ es.length ∧
      (gs.length = es.length ↔ fs.Distinct) ∧ (fs.Distinct → gs = fs)) v s w s' ∧
    (v.WellFormed → (v.All (Value.outer I.isInclude) fun n => ∀ k ∈ n.keys, k.FreeOf I.isInclude) →
      I.Builds (fun es fs gs => gs = fs ∧ gs.map (·.1) = es.map (·.1)) v s w s') := by
  refine ⟨builds_of_returns (fun n _ es _ s fs s' hfs => ?_) h, fun hwf hfree =>
    builds_of_returns (fun n hn es heq s fs s' hfs => ?_) h⟩
  · have hlength := length_of_returns_constructFields hfs
    refine ⟨rfl, ?_, ?_, Entries.ofPairs_of_distinct⟩
    · have hle := Entries.length_extend_le [] fs
      rwa [List.length_nil, Nat.zero_add, hlength] at hle
    · rw [← hlength]
      exact Entries.length_ofPairs_eq_iff
  · subst heq
    obtain ⟨hdistinct, hes⟩ := Value.all_parts_mapping es |>.mp (wellFormed_outer hwf _ hn)
    have hkeys := keys_of_returns_constructFields
      (fun e he => ⟨(hes e he).1, hfree _ hn e.1 (List.mem_map_of_mem he)⟩) hfs
    have hkept : Entries.ofPairs fs = fs := Entries.ofPairs_of_distinct ((hdistinct es rfl).congr_keys hkeys)
    rw [hkept]
    exact ⟨rfl, hkeys⟩

/-- A key that becomes null beside one that is a text, and a mapping whose only include is a value. -/
theorem constructTree_entries_two :
    ((Memory.noting [("a", "")]).constructTree
      (.mapping [(.tagged includeTag (.string "a"), .bool true), (.string "b", .bool false)])).Returns []
      (.mapping [(.null, .bool true), (.string "b", .bool false)]) [.openOne "a" {}] ∧
    (Memory.noting [("a", "")]).Builds (fun es fs gs => gs = .ofPairs fs ∧ gs.length ≤ es.length ∧
        (gs.length = es.length ↔ fs.Distinct) ∧ (fs.Distinct → gs = fs))
      (.mapping [(.tagged includeTag (.string "a"), .bool true), (.string "b", .bool false)]) []
      (.mapping [(.null, .bool true), (.string "b", .bool false)]) [.openOne "a" {}] ∧
    (Memory.noting [("a", "")]).Builds (fun es fs gs => gs = fs ∧ gs.map (·.1) = es.map (·.1))
      (.mapping [(.string "b", .tagged includeTag (.string "a"))]) [] (.mapping [(.string "b", .null)])
      [.openOne "a" {}] := by
  have hkey : ((Memory.noting [("a", "")]).constructTree
      (.mapping [(.tagged includeTag (.string "a"), .bool true), (.string "b", .bool false)])).Returns []
      (.mapping [(.null, .bool true), (.string "b", .bool false)]) [.openOne "a" {}] := by
    rfl
  have hvalue : ((Memory.noting [("a", "")]).constructTree
      (.mapping [(.string "b", .tagged includeTag (.string "a"))])).Returns [] (.mapping [(.string "b", .null)])
      [.openOne "a" {}] := by
    rfl
  refine ⟨hkey, (constructTree_entries hkey).1, (constructTree_entries hvalue).2 ?_ ?_⟩
  · simp [Value.WellFormed, Value.HasDistinctKeys, Entries.Distinct]
  · have hinclude : (Memory.noting [("a", "")]).isInclude includeTag = true := by decide
    have hpayload : (Value.tagged includeTag (.string "a")).outer (Memory.noting [("a", "")]).isInclude = [] := by
      rw [Value.outer, if_pos hinclude]
    have htext : (Value.string "b").outer (Memory.noting [("a", "")]).isInclude = [] := rfl
    rw [Value.all_iff]
    simp [Value.outer, Value.parts, Value.keys, Value.FreeOf, Value.isInclude, Value.all_iff_of_nil hpayload,
      Value.all_iff_of_nil htext]

/-- A key becomes one that is there already, and its entry is lost. -/
theorem constructTree_drops :
    ¬ ∀ (I : Includer (StateM (List Call))) (v w : Value) (s s' : List Call), v.WellFormed →
      (I.constructTree v).Returns s w s' →
      I.Builds (fun es fs gs => gs.length = es.length ∧ gs = fs) v s w s' := by
  intro h
  have hrun : ((Memory.noting [("a", "")]).constructTree
      (.mapping [(.null, .bool true), (.tagged includeTag (.string "a"), .bool false)])).Returns []
      (.mapping [(.null, .bool false)]) [.openOne "a" {}] := by
    rfl
  have hwf : (Value.mapping [(.null, .bool true), (.tagged includeTag (.string "a"), .bool false)]).WellFormed := by
    simp [Value.WellFormed, Value.HasDistinctKeys, Entries.Distinct, Value.same]
  obtain ⟨fs, gs, -, ⟨hlength, -⟩, heq⟩ := h _ _ _ _ _ hwf hrun
  cases heq
  cases hlength

end Includer
end Transclusion
