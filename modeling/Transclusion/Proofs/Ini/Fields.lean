import Mathlib.Data.List.Nodup
import Transclusion.Proofs.Ini.Roles

/-!
# The fields of a section

* `Ini.Fields.ofRoles` : the fields after the lines of a section, each added to those before;
* `Ini.Fields.mem_keys_ofRoles`, `Ini.Fields.nodup_keys_ofRoles` : their keys are those that are set, each once;
* `Ini.entries` : the entries of a section, each with the lines that go on with it;
* `Ini.Fields.ofRoles_eq_entries` : where no key is set twice the fields are the entries.
-/

namespace Transclusion
namespace Ini

variable {own : List Role} {r : Role} {key value line : String} {fs : Fields}

namespace Fields

abbrev keys (fs : Fields) : List String := fs.map (·.1)

/-! ## One change -/

theorem keys_set (key value : String) (fs : Fields) :
    (set key value fs).keys = if key ∈ fs.keys then fs.keys else fs.keys ++ [key] := by
  induction fs with
  | nil => simp [set]
  | cons f fs ih =>
    obtain ⟨k, v⟩ := f
    by_cases hk : k = key
    · simp [set, hk]
    · have hne : key ≠ k := Ne.symm hk
      simp only [set, if_neg hk, keys, List.map_cons] at ih ⊢
      rw [ih]
      by_cases hmem : key ∈ fs.map (·.1) <;> simp [hmem, hne]

theorem set_of_not_mem (h : key ∉ fs.keys) (value : String) : set key value fs = fs ++ [(key, value)] := by
  induction fs with
  | nil => rfl
  | cons f fs ih =>
    obtain ⟨k, v⟩ := f
    simp only [keys, List.map_cons, List.mem_cons, not_or] at h
    rw [set, if_neg (Ne.symm h.1), ih h.2]
    rfl

theorem extendLast_concat (fs : Fields) (key value line : String) :
    extendLast line (fs ++ [(key, value)]) = fs ++ [(key, value ++ "\n" ++ line)] := by
  induction fs with
  | nil => rfl
  | cons f fs ih =>
    cases hfs : fs ++ [(key, value)] with
    | nil => simp at hfs
    | cons g gs =>
      rw [hfs] at ih
      simp only [List.cons_append, hfs]
      rw [extendLast, ih]
      simp

theorem keys_extendLast (line : String) (fs : Fields) : (extendLast line fs).keys = fs.keys := by
  rcases List.eq_nil_or_concat fs with rfl | ⟨fs, ⟨key, value⟩, rfl⟩
  · rfl
  · rw [List.concat_eq_append, extendLast_concat]
    simp

/-! ## The lines of a section -/

def addRole (fs : Fields) : Role → Fields
  | .entry line => set (keyOf line) (valueOf line) fs
  | .continuation line => extendLast line fs
  | _ => fs

def ofRoles (own : List Role) : Fields := own.foldl addRole []

theorem ofRoles_concat (own : List Role) (r : Role) : ofRoles (own ++ [r]) = (ofRoles own).addRole r :=
  List.foldl_concat ..

theorem keys_addRole (fs : Fields) (r : Role) :
    (fs.addRole r).keys = match r with
      | .entry line => if keyOf line ∈ fs.keys then fs.keys else fs.keys ++ [keyOf line]
      | _ => fs.keys := by
  cases r with
  | entry line => exact keys_set _ _ fs
  | continuation line => exact keys_extendLast line fs
  | _ => rfl

end Fields

theorem sets_concat {key : String} :
    Sets (own ++ [r]) key ↔ Sets own key ∨ ∃ line, r = .entry line ∧ keyOf line = key := by
  simp only [Sets, List.mem_append, List.mem_singleton, or_and_right, exists_or]
  simp only [eq_comm]

namespace Fields

theorem mem_keys_ofRoles : key ∈ (ofRoles own).keys ↔ Sets own key := by
  induction own using List.reverseRecOn with
  | nil => simp [ofRoles, Sets]
  | append_singleton own r ih =>
    rw [ofRoles_concat, keys_addRole, sets_concat, ← ih]
    cases r with
    | entry line =>
      by_cases hmem : keyOf line ∈ (ofRoles own).keys
      · simp only [if_pos hmem]
        constructor
        · exact Or.inl
        · rintro (h | ⟨line', heq, rfl⟩)
          · exact h
          · cases heq
            exact hmem
      · simp only [if_neg hmem, List.mem_append, List.mem_singleton]
        simp [eq_comm]
    | _ => simp

theorem nodup_keys_ofRoles (own : List Role) : (ofRoles own).keys.Nodup := by
  induction own using List.reverseRecOn with
  | nil => exact List.nodup_nil
  | append_singleton own r ih =>
    rw [ofRoles_concat, keys_addRole]
    cases r with
    | entry line =>
      dsimp only
      split
      · exact ih
      · rename_i hmem
        exact List.nodup_append.mpr ⟨ih, List.nodup_singleton _, by
          intro a ha b hb
          rw [List.mem_singleton] at hb
          rintro rfl
          exact hmem (hb ▸ ha)⟩
    | _ => exact ih

theorem ofRoles_eq_nil_iff : ofRoles own = [] ↔ own.any Role.isEntry = false := by
  have hkeys : ofRoles own = [] ↔ ∀ key, ¬ Sets own key := by
    simp only [← mem_keys_ofRoles]
    rw [← List.eq_nil_iff_forall_not_mem, keys, List.map_eq_nil_iff]
  rw [hkeys, List.any_eq_false]
  constructor
  · intro h r hr hentry
    cases r with
    | entry line => exact h (keyOf line) ⟨line, hr, rfl⟩
    | _ => cases hentry
  · rintro h key ⟨line, hmem, -⟩
    exact h _ hmem rfl

end Fields

/-! ## Entries with what goes on with them -/

/-- The continuations before the next entry, each on a line of its own. -/
def continued : List Role → String
  | [] => ""
  | .entry _ :: _ => ""
  | .continuation line :: rest => "\n" ++ line ++ continued rest
  | _ :: rest => continued rest

/-- The entries in order, each with its key, and its value with all that goes on with it. -/
def entries : List Role → Fields
  | [] => []
  | .entry line :: rest => (keyOf line, valueOf line ++ continued rest) :: entries rest
  | _ :: rest => entries rest

theorem continued_concat (own : List Role) (r : Role) :
    continued (own ++ [r]) = if own.any Role.isEntry then continued own else continued own ++ continued [r] := by
  induction own with
  | nil => simp [continued]
  | cons s own ih =>
    cases s with
    | entry line => simp [continued, Role.isEntry]
    | continuation line =>
      simp only [List.cons_append, continued, ih, List.any_cons, Role.isEntry, Bool.false_or]
      split <;> simp [String.append_assoc]
    | _ => exact ih

theorem entries_eq_nil_iff : entries own = [] ↔ own.any Role.isEntry = false := by
  induction own with
  | nil => simp [entries]
  | cons r own ih => cases r <;> simp [entries, Role.isEntry, ih]

theorem entries_concat (own : List Role) (r : Role) :
    entries (own ++ [r]) = match r with
      | .entry line => entries own ++ [(keyOf line, valueOf line)]
      | .continuation line => Fields.extendLast line (entries own)
      | _ => entries own := by
  induction own with
  | nil => cases r <;> simp [entries, continued, Fields.extendLast]
  | cons s own ih =>
    cases s with
    | entry line =>
      rw [List.cons_append, entries, entries, ih, continued_concat]
      -- only the last entry has something to gain from one more line
      cases hentries : entries own with
      | nil =>
        rw [entries_eq_nil_iff.mp hentries]
        cases r <;> simp [continued, Fields.extendLast, String.append_assoc]
      | cons f fs =>
        have hany : own.any Role.isEntry = true := by
          rw [← Bool.not_eq_false, ← entries_eq_nil_iff, hentries]
          simp
        rw [hany]
        cases r <;> simp [Fields.extendLast]
    | _ => exact ih

/-- Where no key is set twice the fields are the entries, in order. -/
theorem Fields.ofRoles_eq_entries (h : (entries own).keys.Nodup) : ofRoles own = entries own := by
  induction own using List.reverseRecOn with
  | nil => rfl
  | append_singleton own r ih =>
    rw [entries_concat] at h
    rw [ofRoles_concat, entries_concat]
    cases r with
    | entry line =>
      simp only [keys, List.map_append, List.nodup_append] at h
      obtain ⟨hown, -, hdisjoint⟩ := h
      rw [ih hown]
      apply set_of_not_mem
      intro hmem
      exact hdisjoint _ hmem _ (List.mem_singleton_self _) rfl
    | continuation line =>
      dsimp only at h ⊢
      rw [keys_extendLast] at h
      rw [ih h]
      rfl
    | _ => exact ih h

end Ini
end Transclusion
