import Transclusion.Format.Table
import Transclusion.Proofs.Patterns.Enclosed

/-!
# Rows of format tables

* `FormatTable.exists_push_iff` : a row is added if its pattern is an expression in a group, and not too large;
* `FormatTable.push_anchored` : a row is added for the expressions that a parenthesis closes, and it matches from the
  start of a path;
* `FormatTable.push_not_valid` : rows are added for other texts too.
-/

namespace Transclusion
namespace FormatTable

open Regex Regex.Engine

variable {E : Engine} {spans : String → List Char → List Char → List Char → Prop}

theorem enclosed_eq (p : String) : "^(?:" ++ p ++ ")" = "^" ++ ("(?:" ++ p ++ ")") := by
  rw [← String.toList_inj]
  simp

theorem exists_push_iff {t : FormatTable E} {p : String} {f : Format} : (∃ t', t.push p f = .ok t') ↔
    E.Grammatical ("^(?:" ++ p ++ ")") ∧ E.read ("^(?:" ++ p ++ ")") ≠ .error .tooLarge := by
  simp only [push_eq_ok_iff, Grammatical]
  constructor
  · rintro ⟨t', e, he, -⟩
    simp [he]
  · rintro ⟨hmalformed, hlarge⟩
    rcases he : E.read ("^(?:" ++ p ++ ")") with (_ | _) | e
    · exact absurd he hmalformed
    · exact absurd he hlarge
    · exact ⟨_, e, rfl, rfl⟩

/-- **A row is added for an expression that a parenthesis closes, and it decides for the paths that the expression
matches from their start.** For a text that is no expression, a row is added only if a parenthesis of the text closes
the group that the text is put in. Every refusal names the text. -/
theorem push_anchored (h : E.Documented spans) (t : FormatTable E) (p : String) (f : Format) :
    (E.Grammatical p →
      ((∃ t', t.push p f = .ok t') ↔ E.Closes p ∧ E.read ("^(?:" ++ p ++ ")") ≠ .error .tooLarge) ∧
      ∀ t', t.push p f = .ok t' → ∀ path,
        (MatchesStart spans p path → t'.format? path = some f) ∧
        (¬ MatchesStart spans p path → t'.format? path = t.format? path)) ∧
    (¬ E.Grammatical p → ∀ t', t.push p f = .ok t' →
      ∃ q rest, p = q ++ ")" ++ rest ∧ E.Grammatical q ∧ E.Closes q) ∧
    ((∃ t', t.push p f = .ok t') ∨ t.push p f = .error (.config (.rulePattern p))) := by
  have hread {t' : FormatTable E} (ht' : t.push p f = .ok t') :
      ∃ e, E.read ("^" ++ ("(?:" ++ p ++ ")")) = .ok e ∧ t' = ⟨t.rows ++ [(e, f)]⟩ := by
    rw [← enclosed_eq]
    exact push_eq_ok_iff.mp ht'
  refine ⟨fun hp => ⟨?_, fun t' ht' path => ?_⟩, fun hp t' ht' => ?_, ?_⟩
  · rw [exists_push_iff, enclosed_eq, h.grammatical_iff hp]
  · obtain ⟨e, he, rfl⟩ := hread ht'
    have hcloses := (h.grammatical_iff hp).mp (grammatical_of_read he)
    rw [format?_concat]
    constructor
    · intro hstart
      rw [if_pos ((h.finds_iff_matchesStart hp hcloses he path).mpr hstart)]
    · intro hstart
      rw [if_neg (mt (h.finds_iff_matchesStart hp hcloses he path).mp hstart)]
  · obtain ⟨e, he, -⟩ := hread ht'
    exact h.exists_closes hp (grammatical_of_read he)
  · unfold push
    split
    · exact .inl ⟨_, rfl⟩
    · exact .inr rfl

/-- An alternative is matched at the start of a path as well, and further on none is. -/
theorem push_anchored_alternative :
    engine.Documented Spans ∧ ∃ t' : FormatTable engine, push .empty "a|b" .json = .ok t' ∧
      t'.format? "bx" = some .json ∧ t'.format? "xb" = none := by
  have hread : ∃ r, ofText? "a|b" = some r := Option.isSome_iff_exists.mp (by decide +kernel)
  have hvalid : engine.Grammatical "a|b" := engine_grammatical_iff.mpr hread
  have hparen : ofText? ("a|b" ++ ")") = none := by decide +kernel
  have hcloses : engine.Closes "a|b" := by
    rw [Closes, engine_grammatical_iff, hparen]
    simp
  obtain ⟨hexists, hformat⟩ := (push_anchored engine_documented (.empty : FormatTable engine) "a|b" .json).1 hvalid
  obtain ⟨t', ht'⟩ := hexists.mpr ⟨hcloses, engine_read_ne_tooLarge⟩
  have hfirst : MatchesStart Spans "a|b" "bx" := matchesStart_iff.mpr (by decide +kernel)
  have hlater : ¬ MatchesStart Spans "a|b" "xb" := mt matchesStart_iff.mp (by decide +kernel)
  exact ⟨engine_documented, t', ht', (hformat t' ht' "bx").1 hfirst, (hformat t' ht' "xb").2 hlater⟩

/-- A text that closes its group and opens another one is no expression, but a row is added for it. -/
theorem push_not_valid :
    ¬ ∀ (t : FormatTable engine) (p : String) (f : Format),
      (∃ t', t.push p f = .ok t') ↔ ∃ e, engine.read p = .ok e := by
  intro h
  have hgroup : (ofText? ("^(?:" ++ "a)|(?:b" ++ ")")).isSome = true := by decide +kernel
  obtain ⟨s, hs⟩ := Option.isSome_iff_exists.mp hgroup
  have hpush : ∃ t', push (.empty : FormatTable engine) "a)|(?:b" .json = .ok t' :=
    ⟨_, push_eq_ok_iff.mpr ⟨s, engine_read_eq_ok_iff.mpr hs, rfl⟩⟩
  obtain ⟨r, hr⟩ := (h .empty "a)|(?:b" .json).mp hpush
  have hinvalid : ofText? "a)|(?:b" = none := by decide +kernel
  cases hinvalid.symm.trans (engine_read_eq_ok_iff.mp hr)

end FormatTable
end Transclusion
