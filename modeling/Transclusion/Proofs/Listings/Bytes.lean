import Mathlib.Data.List.Nodup
import Mathlib.Tactic.SplitIfs

/-!
# The order of texts and of their bytes

* `Text.bytes` : the bytes of a text;
* `Text.bytes_lt_bytes_iff` : texts are ordered as their bytes are;
* `Text.append_lt_append_iff` : what texts begin with in common does not count;
* `Text.eq_of_pairwise_lt` : texts in strictly ascending order are given by what is among them.
-/

namespace Transclusion.Text

def bytes (s : String) : List UInt8 := s.toUTF8.data.toList

theorem bytes_eq_flatMap (s : String) : bytes s = s.toList.flatMap String.utf8EncodeChar := by
  rw [bytes, String.toUTF8_eq_toByteArray, ← String.utf8Encode_toList]
  exact List.toList_data_toByteArray

/-- The digits of a scalar value to the base 64, as its bytes hold them. -/
theorem div_sixtyFour (v : Nat) : v / 64 / 64 = v / 4096 ∧ v / 4096 / 64 = v / 262144 :=
  ⟨Nat.div_div_eq_div_mul v 64 64, Nat.div_div_eq_div_mul v 4096 64⟩

theorem utf8EncodeChar_append_lt {c d : Char} (h : c < d) (xs ys : List UInt8) :
    String.utf8EncodeChar c ++ xs < String.utf8EncodeChar d ++ ys := by
  have hlt : c.val.toNat < d.val.toNat := UInt32.lt_iff_toNat_lt.mp h
  have hd : d.val.toNat < 0x110000 := by
    have := d.valid
    simp only [UInt32.isValidChar, Nat.isValidChar] at this
    omega
  simp only [String.utf8EncodeChar]
  generalize c.val.toNat = v at *
  generalize d.val.toNat = w at *
  obtain ⟨hv₁, hv₂⟩ := div_sixtyFour v
  obtain ⟨hw₁, hw₂⟩ := div_sixtyFour w
  split_ifs
  all_goals simp only [List.cons_append, List.nil_append, List.cons_lt_cons_iff,
    UInt8.lt_iff_toNat_lt, ← UInt8.toNat_inj, UInt8.toNat_ofNat']
  all_goals simp (disch := omega) only [Nat.mod_eq_of_lt]
  all_goals omega

theorem flatMap_utf8EncodeChar_lt {cs ds : List Char} (h : cs < ds) :
    cs.flatMap String.utf8EncodeChar < ds.flatMap String.utf8EncodeChar := by
  induction cs generalizing ds with
  | nil =>
    cases ds with
    | nil => exact absurd h (List.lt_irrefl _)
    | cons d ds =>
      obtain ⟨b, bs, hbs⟩ := List.exists_cons_of_ne_nil (String.utf8EncodeChar_ne_nil (c := d))
      rw [List.flatMap_cons, hbs]
      exact List.nil_lt_cons _ _
  | cons c cs ih =>
    cases ds with
    | nil => exact absurd h (List.not_lt_nil _)
    | cons d ds =>
      rw [List.flatMap_cons, List.flatMap_cons]
      rcases List.cons_lt_cons_iff.mp h with hlt | ⟨rfl, hlt⟩
      · exact utf8EncodeChar_append_lt hlt _ _
      · exact List.append_left_lt (ih hlt)

/-- Texts are ordered as their bytes are. -/
theorem bytes_lt_bytes_iff {s t : String} : bytes s < bytes t ↔ s < t := by
  have hmono : ∀ {s t : String}, s < t → bytes s < bytes t := fun h => by
    rw [bytes_eq_flatMap, bytes_eq_flatMap]
    exact flatMap_utf8EncodeChar_lt h
  refine ⟨fun h => ?_, hmono⟩
  by_cases hlt : s < t
  · exact hlt
  by_cases hgt : t < s
  · exact absurd (hmono hgt) (List.lt_asymm h)
  · obtain rfl := String.le_antisymm (String.not_lt.mp hgt) (String.not_lt.mp hlt)
    exact absurd h (List.lt_irrefl _)

/-! ## Texts in order -/

theorem pairwise_le_mergeSort (l : List String) : (l.mergeSort fun a b => a ≤ b).Pairwise fun a b => a ≤ b := by
  have := @List.pairwise_mergeSort _ (fun a b : String => decide (a ≤ b))
    (fun a b c hab hbc => by simpa using String.le_trans (by simpa using hab) (by simpa using hbc))
    (fun a b => by simpa using String.le_total a b) l
  simpa using this

theorem append_lt_append_iff {s t : String} (start : String) : start ++ s < start ++ t ↔ s < t := by
  change (start ++ s).toList < (start ++ t).toList ↔ s.toList < t.toList
  rw [String.toList_append, String.toList_append]
  induction start.toList with
  | nil => rfl
  | cons c cs ih => simp [ih]

theorem append_le_append_iff {s t : String} (start : String) : start ++ s ≤ start ++ t ↔ s ≤ t := by
  rw [← String.not_lt, ← String.not_lt, append_lt_append_iff]

/-- Texts in strictly ascending order are given by what is among them. -/
theorem eq_of_pairwise_lt {l₁ l₂ : List String} (h₁ : l₁.Pairwise (· < ·)) (h₂ : l₂.Pairwise (· < ·))
    (hmem : ∀ s, s ∈ l₁ ↔ s ∈ l₂) : l₁ = l₂ := by
  have hperm : l₁.Perm l₂ := (List.perm_ext_iff_of_nodup (h₁.imp fun h => String.ne_of_lt h)
    (h₂.imp fun h => String.ne_of_lt h)).mpr hmem
  exact hperm.eq_of_pairwise (fun a b _ _ hab hba => absurd hba (String.lt_asymm hab)) h₁ h₂

end Transclusion.Text
