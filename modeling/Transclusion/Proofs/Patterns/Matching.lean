import Transclusion.Regex.Basic

/-!
# What expressions match

* `Regex.Matches` : an expression matches a word that stands between two characters;
* `Regex.matches_after` : what is left after one character matches what goes on from there;
* `Regex.matchesHere_iff`, `Regex.finds_iff` : the matcher finds the words that are matched, and no others.
-/

namespace Transclusion
namespace Regex

/-- An expression matches a word. What precedes the word and what follows it matters to conditions only. -/
inductive Matches : Regex → (before : Option Char) → (word : List Char) → (next : Option Char) → Prop
  | nothing (before next : Option Char) : Matches .nothing before [] next
  | chars {k : CharClass} {c : Char} (before next : Option Char) (h : k.has c = true) :
    Matches (.chars k) before [c] next
  | check {a : Assertion} {before next : Option Char} (h : a.holds before next = true) :
    Matches (.check a) before [] next
  | seq {r s : Regex} {before next : Option Char} {u v : List Char} (hr : Matches r before u (v.head?.or next))
    (hs : Matches s (u.getLast?.or before) v next) : Matches (.seq r s) before (u ++ v) next
  | altLeft {r : Regex} (s : Regex) {before next : Option Char} {u : List Char} (h : Matches r before u next) :
    Matches (.alt r s) before u next
  | altRight (r : Regex) {s : Regex} {before next : Option Char} {u : List Char} (h : Matches s before u next) :
    Matches (.alt r s) before u next
  | starNil (r : Regex) (before next : Option Char) : Matches (.star r) before [] next
  | starCons {r : Regex} {before next : Option Char} {u v : List Char} (hr : Matches r before u (v.head?.or next))
    (hs : Matches (.star r) (u.getLast?.or before) v next) : Matches (.star r) before (u ++ v) next

variable {r s : Regex} {before next : Option Char} {c : Char} {w : List Char}

/-! ## Shapes -/

theorem not_matches_never : ¬ Matches .never before w next := nofun

theorem matches_nothing_iff : Matches .nothing before w next ↔ w = [] := by
  constructor
  · rintro ⟨⟩
    rfl
  · rintro rfl
    exact .nothing before next

theorem matches_chars_iff {k : CharClass} : Matches (.chars k) before w next ↔ ∃ d, w = [d] ∧ k.has d = true := by
  constructor
  · rintro ⟨⟩
    exact ⟨_, rfl, ‹_›⟩
  · rintro ⟨d, rfl, h⟩
    exact .chars before next h

theorem matches_check_iff {a : Assertion} :
    Matches (.check a) before w next ↔ w = [] ∧ a.holds before next = true := by
  constructor
  · rintro ⟨⟩
    exact ⟨rfl, ‹_›⟩
  · rintro ⟨rfl, h⟩
    exact .check h

theorem matches_seq_iff : Matches (.seq r s) before w next ↔
    ∃ u v, w = u ++ v ∧ Matches r before u (v.head?.or next) ∧ Matches s (u.getLast?.or before) v next := by
  constructor
  · rintro ⟨⟩
    exact ⟨_, _, rfl, ‹_›, ‹_›⟩
  · rintro ⟨u, v, rfl, hr, hs⟩
    exact .seq hr hs

theorem matches_alt_iff : Matches (.alt r s) before w next ↔ Matches r before w next ∨ Matches s before w next := by
  constructor
  · intro h
    cases h with
    | altLeft _ h => exact .inl h
    | altRight _ h => exact .inr h
  · rintro (h | h)
    · exact .altLeft s h
    · exact .altRight r h

theorem getLast?_cons_or (c : Char) (u : List Char) (before : Option Char) :
    (c :: u).getLast?.or before = u.getLast?.or (some c) := by
  cases hu : u.getLast? <;> simp [List.getLast?_cons, hu]

theorem matches_star_cons : Matches (.star r) before (c :: w) next ↔
    ∃ u v, w = u ++ v ∧ Matches r before (c :: u) (v.head?.or next) ∧
      Matches (.star r) (u.getLast?.or (some c)) v next := by
  constructor
  · intro h
    generalize he : Regex.star r = e at h
    generalize hcw : c :: w = cw at h
    induction h with
    | @starCons r' before next u v hr hs _ ih =>
      cases he
      cases u with
      | nil => exact ih rfl hcw
      | cons d u =>
        cases hcw
        rw [getLast?_cons_or] at hs
        exact ⟨u, v, rfl, hr, hs⟩
    | starNil => cases hcw
    | nothing => cases he
    | chars => cases he
    | check => cases he
    | seq => cases he
    | altLeft => cases he
    | altRight => cases he
  · rintro ⟨u, v, rfl, hr, hs⟩
    rw [← getLast?_cons_or c u before] at hs
    exact .starCons hr hs

/-! ### Shapes that are put together -/

theorem matches_andThen : Matches (r.andThen s) before w next ↔ Matches (.seq r s) before w next := by
  unfold andThen
  split
  · simp [matches_seq_iff, not_matches_never]
  · simp only [matches_seq_iff, matches_nothing_iff]
    constructor
    · exact fun h => ⟨[], w, rfl, rfl, h⟩
    · rintro ⟨u, v, rfl, rfl, h⟩
      exact h
  · rfl

theorem matches_of_offers (hoffers : offers r s = true) (h : Matches r before w next) : Matches s before w next := by
  induction s with
  | alt s t _ iht =>
    rw [offers, Bool.or_eq_true, Bool.or_eq_true, beq_iff_eq, beq_iff_eq] at hoffers
    rcases hoffers with (rfl | rfl) | hoffers
    · exact h
    · exact .altLeft t h
    · exact .altRight s (iht hoffers)
  | never => exact beq_iff_eq.mp hoffers ▸ h
  | nothing => exact beq_iff_eq.mp hoffers ▸ h
  | chars => exact beq_iff_eq.mp hoffers ▸ h
  | check => exact beq_iff_eq.mp hoffers ▸ h
  | seq => exact beq_iff_eq.mp hoffers ▸ h
  | star => exact beq_iff_eq.mp hoffers ▸ h

theorem matches_or : Matches (r.or s) before w next ↔ Matches r before w next ∨ Matches s before w next := by
  unfold or
  split
  · simp [not_matches_never]
  · simp [not_matches_never]
  · split
    · rename_i hoffers
      exact ⟨.inr, fun h => h.elim (matches_of_offers hoffers) id⟩
    · exact matches_alt_iff

/-! ## The matcher -/

theorem passes_iff : r.passes before next = true ↔ Matches r before [] next := by
  induction r with
  | never => simp [passes, not_matches_never]
  | nothing => simp [passes, matches_nothing_iff]
  | chars k => simp [passes, matches_chars_iff]
  | check a => simp [passes, matches_check_iff]
  | seq r s ihr ihs =>
    rw [passes, Bool.and_eq_true, ihr, ihs, matches_seq_iff]
    constructor
    · exact fun h => ⟨[], [], rfl, h⟩
    · rintro ⟨u, v, heq, h⟩
      obtain ⟨rfl, rfl⟩ := List.append_eq_nil_iff.mp heq.symm
      exact h
  | alt r s ihr ihs => simp [passes, matches_alt_iff, ihr, ihs]
  | star r => simp [passes, Matches.starNil]

/-- What is left after a character matches the words that go on from there. -/
theorem matches_after : Matches (r.after before c) (some c) w next ↔ Matches r before (c :: w) next := by
  induction r generalizing w next with
  | never => simp [after, not_matches_never]
  | nothing => simp [after, not_matches_never, matches_nothing_iff]
  | check a => simp [after, not_matches_never, matches_check_iff]
  | chars k =>
    have hone : Matches (.chars k) before (c :: w) next ↔ w = [] ∧ k.has c = true := by
      rw [matches_chars_iff]
      constructor
      · rintro ⟨d, heq, h⟩
        cases heq
        exact ⟨rfl, h⟩
      · rintro ⟨rfl, h⟩
        exact ⟨c, rfl, h⟩
    rw [hone, after]
    split
    · simp [matches_nothing_iff, *]
    · simp [not_matches_never, *]
  | alt r s ihr ihs => rw [after, matches_or, ihr, ihs, matches_alt_iff]
  | star r ih =>
    rw [after, matches_andThen, matches_seq_iff, matches_star_cons]
    simp only [ih]
  | seq r s ihr ihs =>
    have hfirst : Matches ((r.after before c).andThen s) (some c) w next ↔
        ∃ u v, w = u ++ v ∧ Matches r before (c :: u) (v.head?.or next) ∧ Matches s (u.getLast?.or (some c)) v next := by
      rw [matches_andThen, matches_seq_iff]
      simp only [ihr]
    have hsplit : Matches (.seq r s) before (c :: w) next ↔
        (Matches r before [] (some c) ∧ Matches s before (c :: w) next) ∨
        ∃ u v, w = u ++ v ∧ Matches r before (c :: u) (v.head?.or next) ∧ Matches s (u.getLast?.or (some c)) v next := by
      rw [matches_seq_iff]
      constructor
      · rintro ⟨u, v, heq, hr, hs⟩
        cases u with
        | nil =>
          cases heq
          exact .inl ⟨hr, hs⟩
        | cons d u =>
          cases heq
          rw [getLast?_cons_or] at hs
          exact .inr ⟨u, v, rfl, hr, hs⟩
      · rintro (⟨hr, hs⟩ | ⟨u, v, rfl, hr, hs⟩)
        · exact ⟨[], c :: w, rfl, hr, hs⟩
        · rw [← getLast?_cons_or c u before] at hs
          exact ⟨c :: u, v, rfl, hr, hs⟩
    rw [after, hsplit, ← hfirst, ← passes_iff]
    split
    · rename_i hpasses
      rw [matches_or, ihs]
      simp [hpasses, or_comm]
    · rename_i hpasses
      simp [hpasses]

/-- A match is found at a place if and only if some word from there on is matched. -/
theorem matchesHere_iff {cs : List Char} :
    r.matchesHere before cs = true ↔ ∃ u v, cs = u ++ v ∧ Matches r before u v.head? := by
  induction cs generalizing r before with
  | nil =>
    rw [matchesHere, passes_iff]
    constructor
    · exact fun h => ⟨[], [], rfl, h⟩
    · rintro ⟨u, v, heq, h⟩
      obtain ⟨rfl, rfl⟩ := List.append_eq_nil_iff.mp heq.symm
      exact h
  | cons c rest ih =>
    have hleft : (r.after before c != .never && (r.after before c).matchesHere (some c) rest) = true ↔
        ∃ u v, rest = u ++ v ∧ Matches r before (c :: u) v.head? := by
      rw [Bool.and_eq_true, ih]
      simp only [matches_after]
      refine and_iff_right_of_imp ?_
      rintro ⟨u, v, -, h⟩
      rw [bne_iff_ne]
      intro hnever
      rw [← matches_after, hnever] at h
      exact not_matches_never h
    rw [matchesHere, Bool.or_eq_true, hleft, passes_iff]
    constructor
    · rintro (h | ⟨u, v, rfl, h⟩)
      · exact ⟨[], c :: rest, rfl, h⟩
      · exact ⟨c :: u, v, rfl, h⟩
    · rintro ⟨u, v, heq, h⟩
      cases u with
      | nil =>
        cases heq
        exact .inl h
      | cons d u =>
        cases heq
        exact .inr ⟨u, v, rfl, h⟩

theorem findsFrom_iff {cs : List Char} : r.findsFrom before cs = true ↔
    ∃ p u v, cs = p ++ (u ++ v) ∧ Matches r (p.getLast?.or before) u v.head? := by
  induction cs generalizing before with
  | nil =>
    rw [findsFrom, matchesHere_iff]
    constructor
    · rintro ⟨u, v, heq, h⟩
      exact ⟨[], u, v, heq, h⟩
    · rintro ⟨p, u, v, heq, h⟩
      obtain ⟨rfl, huv⟩ := List.append_eq_nil_iff.mp heq.symm
      exact ⟨u, v, huv.symm, h⟩
  | cons c rest ih =>
    rw [findsFrom, Bool.or_eq_true, matchesHere_iff, ih]
    constructor
    · rintro (⟨u, v, heq, h⟩ | ⟨p, u, v, rfl, h⟩)
      · exact ⟨[], u, v, heq, h⟩
      · rw [← getLast?_cons_or c p before] at h
        exact ⟨c :: p, u, v, rfl, h⟩
    · rintro ⟨p, u, v, heq, h⟩
      cases p with
      | nil => exact .inl ⟨u, v, heq, h⟩
      | cons d p =>
        cases heq
        rw [getLast?_cons_or] at h
        exact .inr ⟨p, u, v, rfl, h⟩

/-- **An expression is found in a text if and only if it matches a word of it.** -/
theorem finds_iff {text : String} :
    r.finds text = true ↔ ∃ p u v, text.toList = p ++ (u ++ v) ∧ Matches r p.getLast? u v.head? := by
  rw [finds, findsFrom_iff]
  simp only [Option.or_none]

/-- An expression matches a text from its start, though not always to its end. -/
def MatchesStart (r : Regex) (text : String) : Prop := ∃ u v, text.toList = u ++ v ∧ r.Matches none u v.head?

end Regex
end Transclusion
