import Transclusion.Proofs.Patterns.Engines
import Transclusion.Proofs.Patterns.Groups
import Transclusion.Proofs.Patterns.Matching

/-!
# The engine at hand does what is documented

* `Regex.alternativesOf` : the expression that a text begins, up to a parenthesis that closes nothing in it;
* `Regex.ofText?_grouped` : a text in a group is read as far as the parenthesis that closes the group;
* `Regex.closes_iff` : only a comment at the end of an expression swallows a parenthesis;
* `Regex.engine_documented` : groups are read and matched as they should be.
-/

namespace Transclusion
namespace Regex

variable {p : String} {r : Regex} {x y : Context} {done sofar : Regex} {cs rest : List Char}

/-! ## Alternatives with enough fuel -/

theorem alternatives_fuel {n m : Nat} (h : alternatives n x done sofar cs = some (r, y, rest)) (hm : cs.length < m) :
    alternatives m x done sofar cs = some (r, y, rest) := by
  have hnil : alternatives n x done sofar (cs ++ []) = some (r, y, rest ++ []) := by simpa using h
  rcases alternatives_swap .nil (.of_last (.inl rfl)) n m hm hnil with hm | ⟨-, rfl, hm⟩ <;> simpa using hm

/-- The alternatives of a text, up to its end or to a parenthesis that closes nothing in it. -/
def alternativesOf (cs : List Char) : Option (Regex × Context × List Char) :=
  alternatives (cs.length + 1) {} .never .nothing cs

theorem alternatives_eq_alternativesOf {n : Nat} (hn : cs.length < n) :
    alternatives n {} .never .nothing cs = alternativesOf cs := by
  refine Option.ext fun ⟨r, y, rest⟩ => ⟨fun h => ?_, fun h => ?_⟩
  · exact alternatives_fuel h (Nat.lt_succ_self _)
  · exact alternatives_fuel h hn

def whole? : Regex × Context × List Char → Option Regex
  | (r, _, []) => some r
  | _ => none

theorem ofText?_eq (p : String) :
    ofText? p = (alternatives (2 * p.length + 1) {} .never .nothing p.toList).bind whole? := by
  rw [ofText?]
  rcases alternatives (2 * p.length + 1) {} .never .nothing p.toList with _ | ⟨r, y, _ | ⟨c, rest⟩⟩ <;> rfl

theorem ofText?_eq_some_iff : ofText? p = some r ↔ ∃ y, alternativesOf p.toList = some (r, y, []) := by
  have hfuel : p.toList.length < 2 * p.length + 1 := by
    rw [String.length_toList]
    omega
  rw [ofText?, alternatives_eq_alternativesOf hfuel]
  rcases alternativesOf p.toList with _ | ⟨s, y, _ | ⟨c, rest⟩⟩ <;> simp

theorem toList_close (p : String) : (p ++ ")").toList = p.toList ++ [')'] := by simp

theorem alternativesOf_swap {t t' w : List Char} (ht : Stop t) (ht' : InPlaceOf t' t)
    (h : alternativesOf (w ++ t) = some (r, y, rest ++ t)) :
    alternativesOf (w ++ t') = some (r, y, rest ++ t') ∨
      (t = [] ∧ rest = [] ∧ alternativesOf (w ++ t') = some (r, y, [])) :=
  alternatives_swap ht ht' _ _ (by rw [List.length_append]; omega) h

/-! ## Texts in a group -/

theorem skipBlanks_plain {f : Flags} (hf : f.extended = false) (cs : List Char) : skipBlanks f cs = cs := by
  cases cs with
  | nil => rfl
  | cons c cs => simp [skipBlanks, hf]

theorem alternatives_paren (n : Nat) (sofar : Regex) (cs : List Char) :
    alternatives (n + 1) {} .never sofar ('(' :: cs) = (group? n {} cs).bind (behindPiece n {} .never sofar) := by
  rw [alternatives_succ, skipBlanks_plain rfl]
  rfl

theorem alternatives_caret (n : Nat) (cs : List Char) :
    alternatives (n + 1) {} .never .nothing ('^' :: '(' :: cs) =
      alternatives n {} .never (.seq .nothing (.check .textStart)) ('(' :: cs) := by
  have hquantified : quantified {} (('(' :: cs).length + 1) (.check .textStart) ('(' :: cs) =
      some (.check .textStart, '(' :: cs) := by
    rw [quantified_succ, skipBlanks_plain rfl]
    rfl
  have hcaret : alternatives (n + 1) {} .never .nothing ('^' :: '(' :: cs) =
      behindPiece n {} .never .nothing (.inl (.check .textStart, {}), '(' :: cs) := by
    rw [alternatives_succ, skipBlanks_plain rfl]
    rfl
  rw [hcaret, behindPiece, hquantified]
  rfl

theorem group?_plain (n : Nat) (x : Context) (cs : List Char) : group? n x ('?' :: ':' :: cs) =
    (alternatives n x .never .nothing cs).bind fun (r, y, rest) => match rest with
      | ')' :: rest => some (.inl (r, { x with names := y.names }), rest)
      | _ => none := by
  have hopen : openingOf x ('?' :: ':' :: cs) = some (.inl x, cs) := by
    rw [openingOf_switched x (by simp) (by simp), switched?, switchesOf_cons]
    rfl
  rw [group?, hopen]
  rfl

/-- What stands in front of a group, and what it is read as. -/
inductive Lead : String → Regex → Prop
  | nothing : Lead "" .nothing
  | caret : Lead "^" (.seq .nothing (.check .textStart))

variable {lead : String} {front : Regex}

/-- What is read behind a group, once the expression in it is read. -/
def behindGroup (n : Nat) (front : Regex) : Regex × Context × List Char → Option (Regex × Context × List Char)
  | (r, y, ')' :: rest) => behindPiece n {} .never front (.inl (r, { names := y.names }), rest)
  | _ => none

/-- A group is read as far as the parenthesis that closes it. -/
theorem ofText?_grouped (hlead : Lead lead front) (t : String) : ∃ n, ofText? (lead ++ ("(?:" ++ t)) =
    ((alternativesOf t.toList).bind (behindGroup (n + 1) front)).bind whole? := by
  obtain ⟨n, hn, hread⟩ : ∃ n, t.toList.length < n + 1 ∧ ofText? (lead ++ ("(?:" ++ t)) =
      (alternatives (n + 2) {} .never front ('(' :: '?' :: ':' :: t.toList)).bind whole? := by
    cases hlead with
    | nothing =>
      have hlist : ("" ++ ("(?:" ++ t)).toList = '(' :: '?' :: ':' :: t.toList := by simp
      have hlength : 2 * ("" ++ ("(?:" ++ t)).length + 1 = 2 * t.toList.length + 5 + 2 := by
        rw [← String.length_toList, hlist, List.length_cons, List.length_cons, List.length_cons]
        omega
      exact ⟨2 * t.toList.length + 5, by omega, by rw [ofText?_eq, hlist, hlength]⟩
    | caret =>
      have hlist : ("^" ++ ("(?:" ++ t)).toList = '^' :: '(' :: '?' :: ':' :: t.toList := by simp
      have hlength : 2 * ("^" ++ ("(?:" ++ t)).length + 1 = 2 * t.toList.length + 6 + 2 + 1 := by
        rw [← String.length_toList, hlist, List.length_cons, List.length_cons, List.length_cons, List.length_cons]
        omega
      exact ⟨2 * t.toList.length + 6, by omega, by rw [ofText?_eq, hlist, hlength, alternatives_caret]⟩
  refine ⟨n, ?_⟩
  rw [hread, alternatives_paren, group?_plain, alternatives_eq_alternativesOf hn]
  rcases alternativesOf t.toList with _ | ⟨s, y, _ | ⟨c, rest⟩⟩
  · rfl
  · rfl
  · by_cases hc : c = ')'
    · subst hc
      rfl
    · simp [hc, behindGroup]

theorem ofText?_grouped_of_closed (hlead : Lead lead front)
    (h : alternativesOf (p.toList ++ [')']) = some (r, y, [')'])) :
    ofText? (lead ++ ("(?:" ++ p ++ ")")) = some (.alt .never (.seq front r)) := by
  obtain ⟨n, hread⟩ := ofText?_grouped hlead (p ++ ")")
  have hquantified : quantified {} 1 r [] = some (r, []) := quantified_stop .nil 0 r rfl
  have hbehind (x : Context) : behindPiece (n + 1) {} .never front (.inl (r, x), []) =
      some (.alt .never (.seq front r), x, []) := by
    have hstop : alternatives (n + 1) x .never (.seq front r) [] = some (.alt .never (.seq front r), x, []) :=
      alternatives_stop .nil n x _ _ rfl
    rw [behindPiece, List.length_nil, hquantified]
    exact hstop
  rw [String.append_assoc, hread, toList_close, h, Option.bind_some, behindGroup, hbehind]
  rfl

theorem ofText?_group (h : alternativesOf (p.toList ++ [')']) = some (r, y, [')'])) :
    ofText? ("(?:" ++ p ++ ")") = some (.alt .never (.seq .nothing r)) := by
  have hgroup := ofText?_grouped_of_closed .nothing h
  rwa [String.empty_append] at hgroup

theorem exists_of_ofText?_grouped (hlead : Lead lead front) {t : String}
    (h : ofText? (lead ++ ("(?:" ++ t)) = some r) :
    ∃ s y rest, alternativesOf t.toList = some (s, y, ')' :: rest) := by
  obtain ⟨n, hread⟩ := ofText?_grouped hlead t
  rw [hread] at h
  obtain ⟨_, hgroup, -⟩ := Option.bind_eq_some_iff.mp h
  obtain ⟨⟨s, y, rest⟩, hof, hclose⟩ := Option.bind_eq_some_iff.mp hgroup
  unfold behindGroup at hclose
  split at hclose
  · rename_i heq
    cases heq
    exact ⟨s, y, _, hof⟩
  · cases hclose

/-! ## Expressions that a parenthesis closes -/

theorem engine_read_cases (p : String) :
    (∃ r, ofText? p = some r ∧ engine.read p = .ok r) ∨ (ofText? p = none ∧ engine.read p = .error .malformed) := by
  unfold engine
  dsimp only
  split
  · exact .inl ⟨_, ‹_›, rfl⟩
  · exact .inr ⟨‹_›, rfl⟩

theorem engine_read_eq_ok_iff : engine.read p = .ok r ↔ ofText? p = some r := by
  rcases engine_read_cases p with ⟨s, hs, hread⟩ | ⟨hs, hread⟩
  · rw [hs, hread, Option.some.injEq]
    exact ⟨Except.ok.inj, congrArg Except.ok⟩
  · simp [hs, hread]

theorem engine_grammatical_iff : engine.Grammatical p ↔ ∃ r, ofText? p = some r := by
  rcases engine_read_cases p with ⟨s, hs, hread⟩ | ⟨hs, hread⟩ <;> simp [Engine.Grammatical, hs, hread]

theorem engine_read_ne_tooLarge : engine.read p ≠ .error .tooLarge := by
  rcases engine_read_cases p with ⟨s, hs, hread⟩ | ⟨hs, hread⟩ <;> simp [hread]

/-- Only a comment at the end of an expression swallows a parenthesis. -/
theorem closes_iff (h : ofText? p = some r) :
    engine.Closes p ↔ ∃ y, alternativesOf (p.toList ++ [')']) = some (r, y, [')']) := by
  obtain ⟨y, hy⟩ := ofText?_eq_some_iff.mp h
  have hend : alternativesOf (p.toList ++ []) = some (r, y, [] ++ []) := by simpa using hy
  rw [Engine.Closes, engine_grammatical_iff]
  constructor
  · intro hclose
    rcases alternativesOf_swap .nil (.of_last (.inr rfl)) hend with hparen | ⟨-, -, hswallowed⟩
    · exact ⟨y, hparen⟩
    · rw [← toList_close] at hswallowed
      exact absurd ⟨r, ofText?_eq_some_iff.mpr ⟨y, hswallowed⟩⟩ hclose
  · rintro ⟨z, hz⟩ ⟨s, hs⟩
    obtain ⟨x, hx⟩ := ofText?_eq_some_iff.mp hs
    rw [toList_close, hz] at hx
    cases hx

example : engine.Closes "(?x)a" ∧ ¬ engine.Closes "(?x)a#" := by
  simp only [Engine.Closes, engine_grammatical_iff, ← Option.isSome_iff_exists]
  decide +kernel

theorem exists_of_closes (hp : engine.Grammatical p) (hcloses : engine.Closes p) :
    ∃ r y, ofText? p = some r ∧ alternativesOf (p.toList ++ [')']) = some (r, y, [')']) := by
  obtain ⟨r, hr⟩ := engine_grammatical_iff.mp hp
  obtain ⟨y, hy⟩ := (closes_iff hr).mp hcloses
  exact ⟨r, y, hr, hy⟩

/-- The text up to a parenthesis that closes nothing in it is an expression, and the parenthesis closes it. -/
theorem exists_closes_of_alternativesOf {t rest : List Char} (h : alternativesOf t = some (r, y, ')' :: rest)) :
    ∃ w, t = w ++ ')' :: rest ∧ ofText? (String.ofList w) = some r ∧ engine.Closes (String.ofList w) := by
  obtain ⟨w, rfl⟩ := (suffix_of_alternatives h).1
  have hparen : alternativesOf (w ++ ')' :: rest) = some (r, y, [] ++ ')' :: rest) := h
  have hcut {t' : List Char} (ht' : Stop t') : alternativesOf (w ++ t') = some (r, y, t') := by
    rcases alternativesOf_swap (.paren rest) (.of_paren ht') hparen with hcut | ⟨hnil, -⟩
    · exact hcut
    · cases hnil
  have hw : ofText? (String.ofList w) = some r := ofText?_eq_some_iff.mpr ⟨y, by simpa using hcut .nil⟩
  exact ⟨w, rfl, hw, (closes_iff hw).mpr ⟨y, by simpa using hcut (.paren [])⟩⟩

/-! ## The engine -/

/-- What the expression that a text spells matches. -/
def Spans (p : String) (before w behind : List Char) : Prop :=
  ∃ r, ofText? p = some r ∧ r.Matches before.getLast? w behind.head?

theorem spans_iff (h : ofText? p = some r) {before w behind : List Char} :
    Spans p before w behind ↔ r.Matches before.getLast? w behind.head? := by
  constructor
  · rintro ⟨s, hs, hmatches⟩
    cases h.symm.trans hs
    exact hmatches
  · exact fun hmatches => ⟨r, h, hmatches⟩

/-- Whether an expression matches a text from its start can be tried. -/
theorem matchesStart_iff {text : String} :
    Engine.MatchesStart Spans p text ↔ ∃ r ∈ ofText? p, r.matchesHere none text.toList = true := by
  simp only [Engine.MatchesStart, Spans, matchesHere_iff, List.getLast?_nil, Option.mem_def]
  constructor
  · rintro ⟨w, behind, htext, r, hr, hw⟩
    exact ⟨r, hr, w, behind, htext, hw⟩
  · rintro ⟨r, hr, w, behind, htext, hw⟩
    exact ⟨w, behind, htext, r, hr, hw⟩

section
variable {before next : Option Char} {w : List Char}

theorem matches_never_alt_iff : (alt .never r).Matches before w next ↔ r.Matches before w next := by
  rw [matches_alt_iff, or_iff_right not_matches_never]

theorem matches_nothing_seq_iff : (seq .nothing r).Matches before w next ↔ r.Matches before w next := by
  simp only [matches_seq_iff, matches_nothing_iff]
  constructor
  · rintro ⟨u, v, rfl, rfl, hv⟩
    exact hv
  · exact fun hw => ⟨[], w, rfl, rfl, hw⟩

theorem matches_textStart_iff :
    (check .textStart).Matches before w next ↔ before = none ∧ w = [] := by
  rw [matches_check_iff, Assertion.holds, Option.isNone_iff_eq_none, and_comm]

end

theorem ofText?_caret : ofText? "^" = some (.alt .never (.seq .nothing (.check .textStart))) := by decide +kernel

/-- Groups are read and matched as they should be. -/
theorem engine_documented : engine.Documented Spans where
  finds_iff {p e} he text := by
    simp only [spans_iff (engine_read_eq_ok_iff.mp he), List.append_assoc]
    exact Regex.finds_iff
  caret before w behind := by
    rw [spans_iff ofText?_caret, matches_never_alt_iff, matches_nothing_seq_iff, matches_textStart_iff,
      List.getLast?_eq_none_iff]
  group {p} hp hcloses before w behind := by
    obtain ⟨r, y, hr, hy⟩ := exists_of_closes hp hcloses
    rw [spans_iff (ofText?_group hy), spans_iff hr, matches_never_alt_iff, matches_nothing_seq_iff]
  behindCaret {p} hp hcloses before w behind := by
    obtain ⟨r, y, -, hy⟩ := exists_of_closes hp hcloses
    rw [spans_iff (ofText?_grouped_of_closed .caret hy), matches_never_alt_iff, matches_seq_iff]
    simp only [spans_iff ofText?_caret, spans_iff (ofText?_group hy), matches_never_alt_iff, matches_nothing_seq_iff,
      List.head?_append, List.getLast?_append]
  grouped {p} hp hcloses := by
    obtain ⟨r, y, -, hy⟩ := exists_of_closes hp hcloses
    exact engine_grammatical_iff.mpr ⟨_, ofText?_grouped_of_closed .caret hy⟩
  closed {t} ht := by
    obtain ⟨r, hr⟩ := engine_grammatical_iff.mp ht
    obtain ⟨s, y, rest, hof⟩ := exists_of_ofText?_grouped .caret hr
    obtain ⟨w, hw, hq, hcloses⟩ := exists_closes_of_alternativesOf hof
    refine ⟨String.ofList w, String.ofList rest, ?_, engine_grammatical_iff.mpr ⟨s, hq⟩, hcloses⟩
    rw [← String.toList_inj, hw]
    simp
  unopened {q} hq hcloses rest := by
    obtain ⟨r, y, -, hy⟩ := exists_of_closes hq hcloses
    rw [engine_grammatical_iff]
    rintro ⟨s, hs⟩
    obtain ⟨z, hz⟩ := ofText?_eq_some_iff.mp hs
    have hparen : alternativesOf (q.toList ++ [')']) = some (r, y, [] ++ [')']) := hy
    rcases alternativesOf_swap (.paren []) (.of_paren (.paren rest.toList)) hparen with hmore | ⟨hnil, -⟩
    · have hlist : (q ++ ")" ++ rest).toList = q.toList ++ ')' :: rest.toList := by simp
      rw [hlist, hmore] at hz
      cases hz
    · cases hnil

end Regex
end Transclusion
