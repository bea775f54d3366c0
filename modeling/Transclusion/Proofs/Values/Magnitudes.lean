import Mathlib.Algebra.Order.Field.Power
import Mathlib.Algebra.Order.Ring.Rat
import Mathlib.Tactic.Linarith
import Transclusion.Proofs.Values.Doubles

/-!
# Numbers that reach `2 ^ 64`

The doubles below `2 ^ 64` are `2 ^ 11` apart there. What is nearer to `2 ^ 64` than to the last of them is rounded up,
and so is what is half way between.

* `Binary64.value`, `Number.value` : the value of a number;
* `Binary64.exceedsWord_iff` : a double reaches `2 ^ 64` if its value does, and none is between the last and `2 ^ 64`;
* `Binary64.exceedsWord_ofInt_iff` : the double of an integer reaches it if the integer is not more than `2 ^ 10` below;
* `Number.exceedsWord_iff` : both at once.
-/

namespace Transclusion

namespace Binary64

variable {x : Binary64}

/-! ## Doubles -/

def value (x : Binary64) : ℚ := (if x.sign then -1 else 1) * (x.significand * 2 ^ x.exponent)

theorem significand_lt (x : Binary64) : x.significand < 2 ^ 53 := by
  have hfraction := x.fraction_lt
  simp only [Nat.pow_eq] at hfraction
  unfold significand
  simp only [Nat.pow_eq]
  split <;> omega

theorem value_of_sign (h : x.sign = true) : x.value ≤ 0 := by
  have hmagnitude : (0 : ℚ) ≤ x.significand * 2 ^ x.exponent := by positivity
  rw [value, h]
  simp only [if_true]
  linarith

theorem value_of_not_sign (h : x.sign = false) : x.value = x.significand * 2 ^ x.exponent := by
  rw [value, h]
  simp

/-- From the exponent of `2 ^ 64` on. -/
theorem le_value_of_exponent (hsign : x.sign = false) (h : 1087 ≤ x.exponentBits) : (2 ^ 64 : ℚ) ≤ x.value := by
  have hnormal : x.exponentBits ≠ 0 := by omega
  have hsignificand : (2 ^ 52 : ℚ) ≤ x.significand := by
    have hnat : 2 ^ 52 ≤ x.significand := by
      rw [significand, if_neg hnormal]
      exact Nat.le_add_right _ _
    exact_mod_cast hnat
  have hexponent : (2 ^ (12 : ℤ) : ℚ) ≤ 2 ^ x.exponent := by
    apply zpow_le_zpow_right₀ (by norm_num)
    rw [exponent, if_neg hnormal]
    omega
  calc (2 ^ 64 : ℚ) = 2 ^ 52 * 2 ^ (12 : ℤ) := by norm_num
    _ ≤ x.significand * 2 ^ x.exponent := mul_le_mul hsignificand hexponent (by positivity) (by positivity)
    _ = x.value := (value_of_not_sign hsign).symm

/-- Below that exponent. -/
theorem value_le_of_exponent (hsign : x.sign = false) (h : x.exponentBits ≤ 1086) : x.value ≤ 2 ^ 64 - 2 ^ 11 := by
  have hsignificand : (x.significand : ℚ) ≤ 2 ^ 53 - 1 := by
    have hnat : x.significand + 1 ≤ 2 ^ 53 := x.significand_lt
    have hcast : (x.significand : ℚ) + 1 ≤ 2 ^ 53 := by exact_mod_cast hnat
    linarith
  have hexponent : (2 ^ x.exponent : ℚ) ≤ 2 ^ (11 : ℤ) := by
    apply zpow_le_zpow_right₀ (by norm_num)
    unfold exponent
    split <;> omega
  calc x.value = x.significand * 2 ^ x.exponent := value_of_not_sign hsign
    _ ≤ (2 ^ 53 - 1) * 2 ^ (11 : ℤ) := mul_le_mul hsignificand hexponent (by positivity) (by norm_num)
    _ = 2 ^ 64 - 2 ^ 11 := by norm_num

theorem exceedsWord_iff (h : x.isFinite = true) : x.exceedsWord = true ↔ 2 ^ 64 - 2 ^ 10 ≤ x.value := by
  have hnan : x.isNaN = false := by
    by_contra hnan
    rw [not_isFinite_of_isNaN (by simpa using hnan)] at h
    cases h
  cases hsign : x.sign with
  | true =>
    have hvalue := value_of_sign hsign
    have hnot : ¬ (2 ^ 64 - 2 ^ 10 : ℚ) ≤ x.value := by
      intro hle
      have hpositive : (0 : ℚ) < 2 ^ 64 - 2 ^ 10 := by norm_num
      linarith
    simp [exceedsWord, hsign, hnot]
  | false =>
    have hexponent : x.exceedsWord = true ↔ 1087 ≤ x.exponentBits := by
      simp [exceedsWord, hsign, hnan, h]
    rw [hexponent]
    constructor
    · intro hle
      have hvalue := le_value_of_exponent hsign hle
      linarith
    · intro hle
      by_contra hlt
      have hvalue := value_le_of_exponent hsign (by omega)
      linarith

/-! ## Doubles of integers -/

theorem exceedsWord_ofWord_false {k : Nat} (h : k ≤ 2047 * 2 ^ 52) :
    (ofWord false k).exceedsWord = true ↔ 1087 * 2 ^ 52 ≤ k := by
  have hlt : k < 2 ^ 63 := by omega
  have hfields : ¬ (k / 2 ^ 52 = 2047 ∧ k % 2 ^ 52 ≠ 0) := by omega
  have hnan : (ofWord false k).isNaN = false := by
    rw [← Bool.not_eq_true]
    simpa [isNaN, exponentBits_ofWord_false hlt, fraction_ofWord_false hlt] using hfields
  simp only [exceedsWord, isFinite, sign_ofWord_false hlt, hnan, exponentBits_ofWord_false hlt, Bool.not_false,
    Bool.true_and, Bool.or_eq_true, Bool.not_eq_true', bne_eq_false_iff_eq, decide_eq_true_eq]
  omega

theorem exceedsWord_ofQuotient_one {k : Nat} (hk : 0 < k) :
    (ofQuotient false k 1).exceedsWord = true ↔ 2 ^ 64 - 2 ^ 10 ≤ k := by
  obtain ⟨m, hlow, hhigh, hround, hquotient⟩ := exists_ofQuotient_one hk
  have hle : 2 ^ Nat.log2 k ≤ k := Nat.log2_self_le (Nat.ne_of_gt hk)
  have hlt : k < 2 ^ (Nat.log2 k + 1) := Nat.lt_log2_self
  rw [hquotient, exceedsWord_ofWord_false (Nat.min_le_right _ _)]
  rcases Nat.lt_trichotomy (Nat.log2 k) 63 with hlog | hlog | hlog
  · -- too few bits
    have hbound : 2 ^ (Nat.log2 k + 1) ≤ 2 ^ 63 := Nat.pow_le_pow_right (by decide) hlog
    omega
  · -- as many bits as `2 ^ 64 - 1` has: the significand decides
    have hunit : m = roundQuotient k (2 ^ 11) := by
      rw [hround (by omega), hlog]
    rw [hlog] at hle hlt ⊢
    unfold roundQuotient at hunit
    dsimp only at hunit
    split at hunit
    · omega
    · split at hunit <;> omega
  · -- one bit more
    have hbound : 2 ^ 64 ≤ 2 ^ Nat.log2 k := Nat.pow_le_pow_right (by decide) hlog
    omega

theorem exceedsWord_of_sign {x : Binary64} (h : x.sign = true) : x.exceedsWord = false := by
  simp [exceedsWord, h]

theorem exceedsWord_ofInt_iff (n : Int) : (ofInt n).exceedsWord = true ↔ 2 ^ 64 - 2 ^ 10 ≤ n := by
  rcases Int.lt_trichotomy n 0 with hn | rfl | hn
  · rw [ofInt, decide_eq_true hn, exceedsWord_of_sign (sign_ofQuotient_true _ _)]
    simp only [Bool.false_eq_true, false_iff]
    omega
  · decide
  · have hnot : ¬ n < 0 := by omega
    have hpositive : 0 < n.natAbs := by omega
    rw [ofInt, decide_eq_false hnot, exceedsWord_ofQuotient_one hpositive]
    omega

end Binary64

namespace Number

/-! ## Numbers -/

def value : Number → ℚ
  | .int n => n
  | .float x => x.value

theorem exceedsWord_iff {n : Number} (h : n.toBinary64.isFinite = true) :
    n.toBinary64.exceedsWord = true ↔ 2 ^ 64 - 2 ^ 10 ≤ n.value := by
  cases n with
  | int n =>
    rw [toBinary64, Binary64.exceedsWord_ofInt_iff, value]
    norm_cast
  | float x => exact Binary64.exceedsWord_iff h

end Number
end Transclusion
