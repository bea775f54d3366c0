import Transclusion.Text.Ranges

/-!
# Blank characters

* `isBlank` : the Unicode property White_Space;
* `isAllBlank` : nothing but blanks; `trimChars` : what is between the blanks at the two ends.
-/

namespace Transclusion.Text

/-- The characters with the property White_Space. -/
def blankRanges : List (Nat × Nat) := [
  (0x9, 0xD), (0x20, 0x20), (0x85, 0x85), (0xA0, 0xA0), (0x1680, 0x1680), (0x2000, 0x200A),
  (0x2028, 0x2029), (0x202F, 0x202F), (0x205F, 0x205F), (0x3000, 0x3000)]

def isBlank (c : Char) : Bool := inRanges blankRanges c

def isAllBlank (s : String) : Bool := s.toList.all isBlank

/-- The characters between the blanks at the two ends. -/
def trimChars (cs : List Char) : List Char :=
  ((cs.dropWhile isBlank).reverse.dropWhile isBlank).reverse

theorem dropWhile_eq_nil_iff {α : Type} (p : α → Bool) (l : List α) :
    l.dropWhile p = [] ↔ l.all p = true := by
  induction l with
  | nil => simp
  | cons a l ih => by_cases h : p a = true <;> simp [h, ih]

theorem isBlank_of_isWhitespace {c : Char} (h : c.isWhitespace = true) : isBlank c = true := by
  simp only [Char.isWhitespace, Bool.or_eq_true, decide_eq_true_eq] at h
  rcases h with ((rfl | rfl) | rfl) | rfl <;> decide

/-- A trimmed text is empty exactly when the text was blank. -/
theorem trimChars_eq_nil_iff (cs : List Char) : trimChars cs = [] ↔ cs.all isBlank = true := by
  constructor
  · intro h
    simp only [trimChars, List.reverse_eq_nil_iff, dropWhile_eq_nil_iff, List.all_reverse] at h
    rw [← dropWhile_eq_nil_iff]
    cases hd : cs.dropWhile isBlank with
    | nil => rfl
    | cons c rest =>
      have hc := List.head_dropWhile_not isBlank (l := cs) (by simp [hd])
      simp [hd] at h hc
      simp [hc] at h
  · intro h
    simp [trimChars, (dropWhile_eq_nil_iff isBlank cs).2 h]

end Transclusion.Text
