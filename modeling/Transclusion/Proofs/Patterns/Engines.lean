import Transclusion.Regex.Engine

/-!
# What engines are documented to do

* `Regex.Engine.Grammatical`, `Regex.Engine.Closes` : texts that are expressions, and those that a parenthesis closes;
* `Regex.Engine.Documented` : which texts are expressions with groups in them, and what they match;
* `Regex.Engine.Documented.grammatical_iff` : an expression is one in a group as well if a parenthesis closes it;
* `Regex.Engine.Documented.exists_closes` : so is what closes the group on its own;
* `Regex.Engine.Documented.finds_iff_matchesStart` : behind a caret an expression is found at the start of a text only.
-/

namespace Transclusion
namespace Regex.Engine

variable (E : Engine) {p q t rest : String}

/-- A text is an expression, though it may be too large. -/
def Grammatical (p : String) : Prop := E.read p ≠ .error .malformed

/-- A parenthesis behind a text is no part of the expression that the text begins. It is part of it where the text ends
in a comment. -/
def Closes (p : String) : Prop := ¬ E.Grammatical (p ++ ")")

/-- What is relied on. That `spans p before w behind` means that the expression `p` matches `w` where it stands between
`before` and `behind`. -/
structure Documented (spans : String → (before w behind : List Char) → Prop) : Prop where
  /-- An expression is found in a text if it matches a part of it. -/
  finds_iff : ∀ {p : String} {e : E.Expression}, E.read p = .ok e → ∀ text : String,
    E.finds e text = true ↔ ∃ before w behind, text.toList = before ++ w ++ behind ∧ spans p before w behind
  /-- A caret matches nothing, at the start of a text. -/
  caret : ∀ before w behind, spans "^" before w behind ↔ before = [] ∧ w = []
  /-- A group matches what the expression in it matches. -/
  group : ∀ {p : String}, E.Grammatical p → E.Closes p → ∀ before w behind,
    spans ("(?:" ++ p ++ ")") before w behind ↔ spans p before w behind
  /-- A caret and a group match one after the other. -/
  behindCaret : ∀ {p : String}, E.Grammatical p → E.Closes p → ∀ before w behind,
    spans ("^" ++ ("(?:" ++ p ++ ")")) before w behind ↔ ∃ u v, w = u ++ v ∧
      spans "^" before u (v ++ behind) ∧ spans ("(?:" ++ p ++ ")") (before ++ u) v behind
  /-- Behind a caret there may be a group with any expression in it. -/
  grouped : ∀ {p : String}, E.Grammatical p → E.Closes p → E.Grammatical ("^" ++ ("(?:" ++ p ++ ")"))
  /-- A group is closed, behind an expression. -/
  closed : ∀ {t : String}, E.Grammatical ("^" ++ ("(?:" ++ t)) →
    ∃ q rest, t = q ++ ")" ++ rest ∧ E.Grammatical q ∧ E.Closes q
  /-- Where no group is open, nothing makes up for a parenthesis that closes one. -/
  unopened : ∀ {q : String}, E.Grammatical q → E.Closes q → ∀ rest, ¬ E.Grammatical (q ++ ")" ++ rest)

/-- An expression matches a text from its first character on, though not always to its end. -/
def MatchesStart (spans : String → List Char → List Char → List Char → Prop) (p text : String) : Prop :=
  ∃ w behind, text.toList = w ++ behind ∧ spans p [] w behind

variable {E}

theorem grammatical_of_read {e : E.Expression} (h : E.read p = .ok e) : E.Grammatical p := by
  rw [Grammatical, h]
  nofun

/-- The parenthesis that closes the group is the last one of the text, or one in front of it. -/
theorem eq_or_exists_of_close (h : p ++ ")" = q ++ ")" ++ rest) : p = q ∨ ∃ rest, p = q ++ ")" ++ rest := by
  have hlist : p.toList ++ [')'] = q.toList ++ ')' :: rest.toList := by
    have hlists := congrArg String.toList h
    simpa using hlists
  rcases List.eq_nil_or_concat rest.toList with hnil | ⟨front, last, hfront⟩
  · rw [hnil] at hlist
    exact .inl (String.toList_inj.mp (List.append_cancel_right hlist))
  · rw [hfront, List.concat_eq_append, ← List.cons_append, ← List.append_assoc] at hlist
    refine .inr ⟨String.ofList front, String.toList_inj.mp ?_⟩
    rw [(List.append_inj' hlist rfl).1]
    simp

namespace Documented

variable {spans : String → List Char → List Char → List Char → Prop} (h : E.Documented spans)
include h

/-! ## Which texts are expressions in a group -/

/-- An expression that swallows the parenthesis of its group leaves the group open. -/
theorem not_grammatical_of_swallows (hp : E.Grammatical p) (hswallows : ¬ E.Closes p) :
    ¬ E.Grammatical ("^" ++ ("(?:" ++ p ++ ")")) := by
  intro hgroup
  rw [String.append_assoc] at hgroup
  obtain ⟨q, rest, hclose, hq, hcloses⟩ := h.closed hgroup
  rcases eq_or_exists_of_close hclose with rfl | ⟨rest, rfl⟩
  · exact hswallows hcloses
  · exact h.unopened hq hcloses rest hp

theorem grammatical_iff (hp : E.Grammatical p) : E.Grammatical ("^" ++ ("(?:" ++ p ++ ")")) ↔ E.Closes p :=
  ⟨fun hgroup => Classical.not_not.mp fun hswallows => h.not_grammatical_of_swallows hp hswallows hgroup,
    h.grouped hp⟩

/-- What is no expression, but is one in a group, has a parenthesis that closes the group. -/
theorem exists_closes (hp : ¬ E.Grammatical p) (hgroup : E.Grammatical ("^" ++ ("(?:" ++ p ++ ")"))) :
    ∃ q rest, p = q ++ ")" ++ rest ∧ E.Grammatical q ∧ E.Closes q := by
  rw [String.append_assoc] at hgroup
  obtain ⟨q, rest, hclose, hq, hcloses⟩ := h.closed hgroup
  rcases eq_or_exists_of_close hclose with rfl | ⟨rest, rfl⟩
  · exact absurd hq hp
  · exact ⟨q, rest, rfl, hq, hcloses⟩

/-! ## What is found -/

theorem spans_enclosed_iff (hp : E.Grammatical p) (hcloses : E.Closes p) {before w behind : List Char} :
    spans ("^" ++ ("(?:" ++ p ++ ")")) before w behind ↔ before = [] ∧ spans p [] w behind := by
  rw [h.behindCaret hp hcloses]
  simp only [h.caret, h.group hp hcloses]
  constructor
  · rintro ⟨u, v, rfl, ⟨rfl, rfl⟩, hv⟩
    exact ⟨rfl, hv⟩
  · rintro ⟨rfl, hw⟩
    exact ⟨[], w, rfl, ⟨rfl, rfl⟩, hw⟩

theorem finds_iff_matchesStart (hp : E.Grammatical p) (hcloses : E.Closes p) {e : E.Expression}
    (he : E.read ("^" ++ ("(?:" ++ p ++ ")")) = .ok e) (text : String) :
    E.finds e text = true ↔ MatchesStart spans p text := by
  rw [h.finds_iff he]
  simp only [h.spans_enclosed_iff hp hcloses]
  constructor
  · rintro ⟨before, w, behind, htext, rfl, hw⟩
    exact ⟨w, behind, htext, hw⟩
  · rintro ⟨w, behind, htext, hw⟩
    exact ⟨[], w, behind, htext, rfl, hw⟩

end Documented
end Regex.Engine
end Transclusion
