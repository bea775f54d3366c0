import Mathlib.Tactic.NormNum
import Mathlib.Tactic.Positivity
import Transclusion.Value.Basic

/-!
# Doubles of integers

* `Binary64.isPositive_ofInt` : the double of an integer is above zero only if the integer is;
* `Binary64.exists_ofQuotient_one` : the word of the double of a positive integer;
* `Binary64.finite_ofInt` : the double of a positive integer of 64 bits is finite and above zero;
* `Number.Positive` : a number is finite and above zero; `Number.Fits` : an integer is one of 64 bits;
* `Number.positive_of_toBinary64`, `Number.Positive.toBinary64` : a number is so exactly if its double is.
-/

namespace Transclusion

namespace Binary64

/-! ## Words -/

theorem word_ofWord {s : Bool} {k : Nat} (h : k < 2 ^ 63) :
    (ofWord s k).word = (if s then 2 ^ 63 else 0) + k := by
  have hlt : (if s then 2 ^ 63 else 0) + k < 2 ^ 64 := by
    split <;> omega
  show (UInt64.ofNat ((if s then 2 ^ 63 else 0) + k)).toNat = _
  rw [UInt64.toNat_ofNat', Nat.mod_eq_of_lt hlt]

theorem exponentBits_ofWord_false {k : Nat} (h : k < 2 ^ 63) : (ofWord false k).exponentBits = k / 2 ^ 52 := by
  have hword : (ofWord false k).word = k := by
    rw [word_ofWord h]
    simp
  show (ofWord false k).word / 2 ^ 52 % 2 ^ 11 = k / 2 ^ 52
  rw [hword]
  omega

theorem fraction_ofWord_false {k : Nat} (h : k < 2 ^ 63) : (ofWord false k).fraction = k % 2 ^ 52 := by
  have hword : (ofWord false k).word = k := by
    rw [word_ofWord h]
    simp
  show (ofWord false k).word % 2 ^ 52 = k % 2 ^ 52
  rw [hword]

theorem sign_ofWord_false {k : Nat} (h : k < 2 ^ 63) : (ofWord false k).sign = false := by
  have hword : (ofWord false k).word = k := by
    rw [word_ofWord h]
    simp
  show decide (2 ^ 63 ≤ (ofWord false k).word) = false
  rw [hword]
  exact decide_eq_false (Nat.not_le.mpr h)

/-- A number below zero, or the negative zero. -/
theorem isPositive_of_sign {x : Binary64} (h : x.sign = true) : x.isPositive = false := by
  simp [isPositive, h]

/-- A word above zero and below that of infinity. -/
theorem finite_ofWord_false {k : Nat} (hk : 0 < k) (h : k < 2047 * 2 ^ 52) :
    (ofWord false k).isFinite = true ∧ (ofWord false k).isPositive = true := by
  have hlt : k < 2 ^ 63 := by omega
  have hexp := exponentBits_ofWord_false hlt
  have hfraction := fraction_ofWord_false hlt
  have hfinite : (ofWord false k).isFinite = true := by
    have hne : k / 2 ^ 52 ≠ 2047 := by omega
    simpa [isFinite, hexp] using hne
  have hnan : (ofWord false k).isNaN = false := by
    by_contra hnan
    rw [not_isFinite_of_isNaN (by simpa using hnan)] at hfinite
    exact absurd hfinite (by simp)
  have hzero : (ofWord false k).isZero = false := by
    have hne : ¬ (k / 2 ^ 52 = 0 ∧ k % 2 ^ 52 = 0) := by omega
    simpa [isZero, hexp, hfraction] using hne
  refine ⟨hfinite, ?_⟩
  simp [isPositive, sign_ofWord_false hlt, hnan, hzero]

/-! ## Integers -/

theorem sign_ofQuotient_true (num den : Nat) : (ofQuotient true num den).sign = true := by
  have hword : ∀ k, k < 2 ^ 63 → (ofWord true k).sign = true := by
    intro k hk
    rw [sign, word_ofWord hk]
    simp
  unfold ofQuotient
  split
  · exact hword 0 (by norm_num)
  · dsimp only
    repeat' split
    all_goals
      apply hword
      simp only [Nat.pow_eq] at *
      omega

theorem isPositive_ofInt {n : Int} (h : (ofInt n).isPositive = true) : 0 < n := by
  by_contra hn
  rcases Int.lt_or_eq_of_le (Int.not_lt.mp hn) with hneg | rfl
  · rw [ofInt, decide_eq_true hneg, isPositive_of_sign (sign_ofQuotient_true _ _)] at h
    exact absurd h (by simp)
  · exact absurd h (by decide)

/-- Between naturals a quotient is rounded to one between them. -/
theorem roundQuotient_bounds {num den low high : Nat} (hd : 0 < den) (hlow : low * den ≤ num)
    (hhigh : num < high * den) : low ≤ roundQuotient num den ∧ roundQuotient num den ≤ high := by
  have hq : num / den < high := (Nat.div_lt_iff_lt_mul hd).mpr hhigh
  have hpos : low ≤ num / den := (Nat.le_div_iff_mul_le hd).mpr hlow
  unfold roundQuotient
  dsimp only
  split
  · omega
  · split <;> omega

theorem quotientExponent_one {k : Nat} (hk : k ≠ 0) : quotientExponent k 1 = Nat.log2 k := by
  have hle : 2 ^ Nat.log2 k ≤ k := Nat.log2_self_le hk
  have hone : Nat.log2 1 = 0 := by decide
  unfold quotientExponent
  simp only [hone, Nat.pow_eq]
  simp
  omega

/-- The significand `m` of an integer is of 53 bits, or has one bit more where it is rounded up to a power of two. The
word counts it on to the exponent, up to that of infinity. -/
theorem exists_ofQuotient_one {k : Nat} (hk : 0 < k) : ∃ m, 2 ^ 52 ≤ m ∧ m ≤ 2 ^ 53 ∧
    (52 ≤ Nat.log2 k → m = roundQuotient k (2 ^ (Nat.log2 k - 52))) ∧
    ofQuotient false k 1 = ofWord false (min ((Nat.log2 k + 1022) * 2 ^ 52 + m) (2047 * 2 ^ 52)) := by
  have hne : k ≠ 0 := Nat.ne_of_gt hk
  have hlow : 2 ^ Nat.log2 k ≤ k := Nat.log2_self_le hne
  have hhigh : k < 2 ^ (Nat.log2 k + 1) := Nat.lt_log2_self
  obtain ⟨unit, hunit⟩ : ∃ unit : Int, unit = max ((Nat.log2 k : Int) - 52) (-1074) := ⟨_, rfl⟩
  obtain ⟨m, hm⟩ : ∃ m, m = if 0 ≤ unit then roundQuotient k (1 * 2 ^ unit.toNat)
      else roundQuotient (k * 2 ^ (-unit).toNat) 1 := ⟨_, rfl⟩
  have hround : 52 ≤ Nat.log2 k → m = roundQuotient k (2 ^ (Nat.log2 k - 52)) := by
    intro hlog
    have hshift : unit.toNat = Nat.log2 k - 52 := by omega
    rw [hm, if_pos (by omega), hshift, Nat.one_mul]
  have hbounds : 2 ^ 52 ≤ m ∧ m ≤ 2 ^ 53 := by
    by_cases hlog : 52 ≤ Nat.log2 k
    · rw [hround hlog]
      apply roundQuotient_bounds
      · positivity
      · rwa [← Nat.pow_add, Nat.add_sub_cancel' hlog]
      · have hsum : 53 + (Nat.log2 k - 52) = Nat.log2 k + 1 := by omega
        rwa [← Nat.pow_add, hsum]
    · rw [hm, if_neg (by omega)]
      have hsum : Nat.log2 k + (-unit).toNat = 52 := by omega
      have hsum' : Nat.log2 k + 1 + (-unit).toNat = 53 := by omega
      apply roundQuotient_bounds
      · norm_num
      · rw [Nat.mul_one, ← hsum, Nat.pow_add]
        exact Nat.mul_le_mul_right _ hlow
      · rw [Nat.mul_one, ← hsum', Nat.pow_add]
        exact Nat.mul_lt_mul_of_pos_right hhigh (by positivity)
  refine ⟨m, hbounds.1, hbounds.2, hround, ?_⟩
  have hquotient : ofQuotient false k 1 = if m < 2 ^ 52 then ofWord false m
      else if (unit + 1074).toNat * 2 ^ 52 + m < 2047 * 2 ^ 52 then ofWord false ((unit + 1074).toNat * 2 ^ 52 + m)
      else ofWord false (2047 * 2 ^ 52) := by
    rw [ofQuotient, if_neg hne, quotientExponent_one hne, hm, hunit]
    rfl
  have hcount : (unit + 1074).toNat = Nat.log2 k + 1022 := by omega
  rw [hquotient, if_neg (Nat.not_lt.mpr hbounds.1), hcount]
  split
  · rw [Nat.min_eq_left (by omega)]
  · rw [Nat.min_eq_right (by omega)]

theorem finite_ofQuotient_one {k : Nat} (hk : 0 < k) (h : k < 2 ^ 64) :
    (ofQuotient false k 1).isFinite = true ∧ (ofQuotient false k 1).isPositive = true := by
  obtain ⟨m, hlow, hhigh, -, hquotient⟩ := exists_ofQuotient_one hk
  have hlog : Nat.log2 k < 64 := (Nat.log2_lt (Nat.ne_of_gt hk)).mpr h
  rw [hquotient]
  apply finite_ofWord_false <;> omega

/-- The double of a positive integer of 64 bits is finite and above zero. -/
theorem finite_ofInt {n : Int} (hn : 0 < n) (h : n < 2 ^ 64) :
    (ofInt n).isFinite = true ∧ (ofInt n).isPositive = true := by
  rw [ofInt, decide_eq_false (by omega)]
  apply finite_ofQuotient_one <;> omega

end Binary64

namespace Number

def Positive : Number → Prop
  | .int n => 0 < n
  | .float x => x.isFinite = true ∧ x.isPositive = true

/-- An integer is one of 64 bits, with a sign or without. -/
def Fits : Number → Prop
  | .int n => -2 ^ 63 ≤ n ∧ n < 2 ^ 64
  | .float _ => True

theorem positive_of_toBinary64 {n : Number} (hfinite : n.toBinary64.isFinite = true)
    (hpositive : n.toBinary64.isPositive = true) : n.Positive := by
  cases n with
  | int n => exact Binary64.isPositive_ofInt hpositive
  | float x => exact ⟨hfinite, hpositive⟩

theorem Positive.toBinary64 {n : Number} (h : n.Positive) (hfits : n.Fits) :
    n.toBinary64.isFinite = true ∧ n.toBinary64.isPositive = true := by
  cases n with
  | int n => exact Binary64.finite_ofInt h hfits.2
  | float x => exact h

end Number
end Transclusion
