import Transclusion.Proofs.Ini.Meaning

/-!
# Sections that come again

A header that comes again begins another section, and of two sections with one name the last is in the result.

* `Value.HasField` : a section with a key;
* `Entries.get?_ofPairs_last` : of pairs under one text the last one counts;
* `Value.ofIni_hasField_iff` : the keys of a section are those of the last header and of the default section;
* `Value.ofIni_loses` : what an earlier header of the same name has is lost.
-/

namespace Transclusion

/-! ## Pairs under one text -/

namespace Entries

theorem get?_insert (key k : String) (es : Entries) (v : Value) :
    get? key (insert es (.string k) v) = if k = key then some v else get? key es := by
  induction es with
  | nil => simp [insert, get?, isKey]
  | cons e rest ih =>
    obtain ⟨k', v'⟩ := e
    rw [insert]
    split
    · rename_i hsame
      obtain rfl := Value.eq_of_string_same hsame
      by_cases hkey : k = key <;> simp [get?, isKey, hkey]
    · rename_i hsame
      rw [get?, ih, get?]
      by_cases hkey : k = key
      · have hne : isKey key k' = false := by
          rw [Bool.eq_false_iff, Ne, isKey_iff]
          rintro rfl
          exact hsame (by simp [Value.same, hkey])
        simp [hkey, hne]
      · simp [hkey]

theorem ofPairs_concat (pairs : List (Value × Value)) (k v : Value) :
    ofPairs (pairs ++ [(k, v)]) = insert (ofPairs pairs) k v :=
  List.foldl_concat ..

variable {α : Type} {l before after : List (String × α)} {s : String} {x : α} {g : String × α → Value}

theorem get?_ofPairs_last (h : ∀ y ∈ after, y.1 ≠ s) :
    get? s (ofPairs ((before ++ (s, x) :: after).map fun y => (.string y.1, g y))) = some (g (s, x)) := by
  induction after using List.reverseRecOn with
  | nil => simp [ofPairs_concat, get?_insert]
  | append_singleton after y ih =>
    have hy : y.1 ≠ s := h y (by simp)
    have hlist : before ++ (s, x) :: (after ++ [y]) = (before ++ (s, x) :: after) ++ [y] := by simp
    rw [hlist, List.map_append, List.map_singleton, ofPairs_concat, get?_insert, if_neg hy]
    exact ih fun z hz => h z (List.mem_append_left _ hz)

theorem get?_ofPairs_none (h : ∀ y ∈ l, y.1 ≠ s) :
    get? s (ofPairs (l.map fun y => (.string y.1, g y))) = none := by
  induction l using List.reverseRecOn with
  | nil => rfl
  | append_singleton l y ih =>
    rw [List.map_append, List.map_singleton, ofPairs_concat, get?_insert, if_neg (h y (by simp))]
    exact ih fun z hz => h z (List.mem_append_left _ hz)

end Entries

/-! ## Fields of the result -/

namespace Ini

theorem exists_last {α : Type} (l : List (String × α)) (s : String) :
    (∀ y ∈ l, y.1 ≠ s) ∨ ∃ before x after, l = before ++ (s, x) :: after ∧ ∀ y ∈ after, y.1 ≠ s := by
  induction l using List.reverseRecOn with
  | nil => simp
  | append_singleton l y ih =>
    by_cases hy : y.1 = s
    · right
      exact ⟨l, y.2, [], by simp [← hy], by simp⟩
    · rcases ih with hall | ⟨before, x, after, rfl, hafter⟩
      · left
        simpa [or_imp, forall_and, hy] using hall
      · right
        refine ⟨before, x, after ++ [y], by simp, ?_⟩
        simpa [or_imp, forall_and, hy] using hafter

namespace Fields

theorem exists_get?_iff {fs : Fields} {k : String} (h : fs.keys.Nodup) :
    (∃ w, Entries.get? k fs.toEntries = some w) ↔ k ∈ fs.keys := by
  rw [toEntries_eq h]
  clear h
  induction fs with
  | nil => simp [Entries.get?]
  | cons f fs ih =>
    by_cases hk : f.1 = k
    · simp [Entries.get?, Entries.isKey, hk]
    · have hne : k ≠ f.1 := Ne.symm hk
      simpa [Entries.get?, Entries.isKey, hk, hne] using ih

theorem mem_keys_withDefaults {own defaults : List Role} {k : String} :
    k ∈ ((ofRoles own).withDefaults (ofRoles defaults)).keys ↔ Sets own k ∨ Sets defaults k := by
  rw [← mem_keys_ofRoles, ← mem_keys_ofRoles, withDefaults_eq, keys, List.map_append, List.mem_append]
  by_cases hown : k ∈ (ofRoles own).keys
  · simp [hown]
  · simp only [hown, false_or]
    constructor
    · intro h
      obtain ⟨f, hf, rfl⟩ := List.mem_map.mp h
      exact List.mem_map_of_mem (List.mem_filter.mp hf).1
    · intro h
      obtain ⟨f, hf, rfl⟩ := List.mem_map.mp h
      exact List.mem_map_of_mem (List.mem_filter.mpr ⟨hf, by simpa using hown⟩)

end Fields

def sectionValue (rs own : List Role) : Value :=
  .mapping ((Fields.ofRoles own).withDefaults (Fields.ofRoles (defaultRoles rs))).toEntries

theorem Document.Reads.toEntries {d : Document} {rs : List Role} (h : d.Reads rs) :
    d.toEntries = Entries.ofPairs ((otherBlocks rs).map fun b => (.string b.1, sectionValue rs b.2)) := by
  unfold Document.toEntries sectionValue
  rw [h.sections, h.defaults, List.map_map]
  rfl

end Ini

namespace Value

open Ini

def HasField (v : Value) (s k : String) : Prop :=
  ∃ es fs w, v = .mapping es ∧ Entries.get? s es = some (.mapping fs) ∧ Entries.get? k fs = some w

/-- **The keys of a section are those of its last header and of the default section.** -/
theorem ofIni_hasField_iff {text : String} {v : Value} (h : ofIni text = .ok v) {s : String} (hs : s ≠ defaultSection)
    (k : String) :
    v.HasField s k ↔ ∃ before own after, blocks (rolesOf text) = before ++ (s, own) :: after ∧
      (∀ b ∈ after, b.1 ≠ s) ∧ (Sets own k ∨ Sets (defaultRoles (rolesOf text)) k) := by
  obtain ⟨d, hd, rfl⟩ := ofIni_eq_ok h
  obtain ⟨hreads, -⟩ := Document.reads_of_ofText hd
  have hlast : ∀ before own after, blocks (rolesOf text) = before ++ (s, own) :: after → (∀ b ∈ after, b.1 ≠ s) →
      Entries.get? s d.toEntries = some (sectionValue (rolesOf text) own) := by
    intro before own after hblocks hafter
    have hkeep : ((s, own) :: after).filter (fun b => decide (b.1 ≠ defaultSection)) =
        (s, own) :: after.filter fun b => decide (b.1 ≠ defaultSection) :=
      List.filter_cons_of_pos (decide_eq_true hs)
    rw [hreads.toEntries, otherBlocks, hblocks, List.filter_append, hkeep]
    apply Entries.get?_ofPairs_last
    exact fun b hb => hafter b (List.mem_filter.mp hb).1
  have hfield : ∀ own, (∃ fs w, sectionValue (rolesOf text) own = .mapping fs ∧ Entries.get? k fs = some w) ↔
      Sets own k ∨ Sets (defaultRoles (rolesOf text)) k := by
    intro own
    rw [← Fields.mem_keys_withDefaults, ← Fields.exists_get?_iff
      (Fields.nodup_keys_withDefaults (Fields.nodup_keys_ofRoles own) (Fields.nodup_keys_ofRoles _))]
    simp [sectionValue]
  constructor
  · rintro ⟨es, fs, w, heq, hget, hk⟩
    cases heq
    rcases exists_last (blocks (rolesOf text)) s with hnone | ⟨before, own, after, hblocks, hafter⟩
    · have habsent : Entries.get? s d.toEntries = none := by
        rw [hreads.toEntries]
        apply Entries.get?_ofPairs_none
        exact fun b hb => hnone b (List.mem_filter.mp hb).1
      cases habsent.symm.trans hget
    · rw [hlast before own after hblocks hafter] at hget
      exact ⟨before, own, after, hblocks, hafter, (hfield own).mp ⟨fs, w, Option.some.inj hget, hk⟩⟩
  · rintro ⟨before, own, after, hblocks, hafter, hset⟩
    obtain ⟨fs, w, heq, hk⟩ := (hfield own).mpr hset
    exact ⟨d.toEntries, fs, w, rfl, heq ▸ hlast before own after hblocks hafter, hk⟩

theorem ofIni_hasField_iff_between :
    ∃ v, ofIni "[a]\nx = 1\n[DEFAULT]\nz = 3\n[a]\ny = 2" = .ok v ∧ "a" ≠ defaultSection ∧
      v.HasField "a" "y" ∧ v.HasField "a" "z" := by
  have hblocks : blocks (rolesOf "[a]\nx = 1\n[DEFAULT]\nz = 3\n[a]\ny = 2") =
      [("a", [.entry "x = 1".toList]), ("DEFAULT", [.entry "z = 3".toList])] ++
        ("a", [.entry "y = 2".toList]) :: [] := by
    decide +kernel
  obtain ⟨v, hv⟩ : ∃ v, ofIni "[a]\nx = 1\n[DEFAULT]\nz = 3\n[a]\ny = 2" = .ok v := ⟨_, rfl⟩
  have hname : "a" ≠ defaultSection := by decide
  refine ⟨v, hv, hname, ?_, ?_⟩
  · rw [ofIni_hasField_iff hv hname]
    exact ⟨_, _, _, hblocks, by simp, .inl ⟨"y = 2".toList, by simp, by decide +kernel⟩⟩
  · rw [ofIni_hasField_iff hv hname]
    refine ⟨_, _, _, hblocks, by simp, .inr ⟨"z = 3".toList, ?_, by decide +kernel⟩⟩
    rw [defaultRoles, hblocks]
    decide +kernel

/-- What an earlier header of the same name has is lost. -/
theorem ofIni_loses :
    ¬ ∀ text v s own k, ofIni text = .ok v → s ≠ defaultSection → (s, own) ∈ blocks (rolesOf text) → Sets own k →
      v.HasField s k := by
  intro h
  have hblocks : ("a", [.entry "x = 1".toList]) ∈ blocks (rolesOf "[a]\nx = 1\n[a]\ny = 2") := by decide +kernel
  obtain ⟨es, fs, w, heq, hget, hk⟩ :=
    h "[a]\nx = 1\n[a]\ny = 2" (.mapping [(.string "a", .mapping [(.string "y", .string "2")])]) "a" _ "x" rfl
      (by decide) hblocks ⟨"x = 1".toList, by simp, by decide +kernel⟩
  cases heq
  cases hget
  cases hk

end Value
end Transclusion
