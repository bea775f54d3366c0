import Transclusion.Proofs.Directives.Payload

/-!
# Which payloads are directives

* `Directive.Names` : a scalar and the target that it names;
* `Directive.Flag` : what flattening can be asked for with;
* `Directive.Stated` : the payloads of the three forms, and their target;
* `Directive.Unflagged` : those in which nothing is wrong but what flattening is asked for with;
* `Directive.ofNode_grammar` : the first are read, and the kind of fault tells the second from all others.
-/

namespace Transclusion
namespace Directive

variable {p v : Value} {es : Entries} {target : String} {d : Directive} {f : Fault}

/-! ## Targets -/

inductive Spells : Value → String → Prop
  | string (s : String) : Spells (.string s) s
  | number (n : Number) : Spells (.number n) n.text
  | bool (b : Bool) : Spells (.bool b) (toString b)

/-- A scalar whose text is the target, and not blank. -/
structure Names (v : Value) (target : String) : Prop where
  spells : Spells v target
  shows : Text.isAllBlank target = false

theorem targetText_eq_ok_iff : targetText v = .ok target ↔ Spells v target := by
  constructor
  · intro h
    cases v <;> cases h <;> constructor
  · rintro ⟨⟩ <;> rfl

theorem invalid_of_targetText (h : targetText v = .error f) : ∃ cause, f = .invalidDirective cause := by
  cases v <;> cases h <;> exact ⟨_, rfl⟩

theorem Names.unique {target' : String} (h : Names v target) (h' : Names v target') : target = target' := by
  have hok := targetText_eq_ok_iff.mpr h.spells
  rw [targetText_eq_ok_iff.mpr h'.spells] at hok
  cases hok
  rfl

theorem ofTarget_targetText_cases (v : Value) :
    (∃ d, Names v d.target ∧ targetText v >>= ofTarget = .ok d) ∨
      ((∀ target, ¬ Names v target) ∧ ∃ cause, targetText v >>= ofTarget = .error (.invalidDirective cause)) := by
  cases htext : targetText v with
  | error f =>
    obtain ⟨cause, rfl⟩ := invalid_of_targetText htext
    refine .inr ⟨fun target h => ?_, cause, rfl⟩
    rw [targetText_eq_ok_iff.mpr h.spells] at htext
    cases htext
  | ok target =>
    have hspells := targetText_eq_ok_iff.mp htext
    cases hblank : Text.isAllBlank target with
    | false => exact .inl ⟨{ target := target, target_shows := hblank }, ⟨hspells, hblank⟩, dif_neg (by simp [hblank])⟩
    | true =>
      refine .inr ⟨fun other h => ?_, .emptyTarget, dif_pos hblank⟩
      have hother : targetText v = .ok other := targetText_eq_ok_iff.mpr h.spells
      rw [htext] at hother
      cases hother
      rw [h.shows] at hblank
      cases hblank

/-! ## The mapping form -/

/-- The value under the one of the two keys of a target that is there. -/
def AsTarget (es : Entries) (v : Value) : Prop :=
  ((.string urlpathKey, v) ∈ es ∧ ∀ w, (.string targetKey, w) ∉ es) ∨
    ((.string targetKey, v) ∈ es ∧ ∀ w, (.string urlpathKey, w) ∉ es)

/-- A truth value, or the text of one; tags do not count. -/
inductive Flag : Value → Bool → Prop
  | truth {v : Value} {b : Bool} (h : v.truth? = some b) : Flag v b
  | text {s : String} {w : Value} {b : Bool} (hread : Value.ofYaml s = .ok w) (h : w.truth? = some b) : Flag (.string s) b

structure Addressed (es : Entries) (target : String) : Prop where
  identifiers : ∀ e ∈ es, ∃ key, e.1.text? = some key ∧ isIdentifier key = true
  names : ∃ v, AsTarget es v ∧ Names v target

def Flagged (es : Entries) : Prop := ∀ v, (.string flattenKey, v) ∈ es → ∃ b, Flag v b

theorem asTarget_iff (hd : Entries.Distinct es) : AsTarget es v ↔
    (Entries.get? urlpathKey es = some v ∧ Entries.get? targetKey es = none) ∨
      (Entries.get? targetKey es = some v ∧ Entries.get? urlpathKey es = none) := by
  simp only [AsTarget, Entries.get?_eq_some_iff hd, Entries.get?_eq_none_iff]

theorem AsTarget.unique {w : Value} (hd : Entries.Distinct es) (hv : AsTarget es v) (hw : AsTarget es w) : v = w := by
  rw [asTarget_iff hd] at hv hw
  rcases hv with ⟨hv, hnone⟩ | ⟨hv, hnone⟩ <;> rcases hw with ⟨hw, hnone'⟩ | ⟨hw, hnone'⟩ <;> simp_all

theorem Addressed.unique {target' : String} (hd : Entries.Distinct es) (h : Addressed es target)
    (h' : Addressed es target') : target = target' := by
  obtain ⟨v, hv, hnames⟩ := h.names
  obtain ⟨w, hw, hnames'⟩ := h'.names
  exact hnames.unique (hw.unique hd hv ▸ hnames')

theorem mappingTarget_cases (hd : Entries.Distinct es) :
    (∃ v, AsTarget es v ∧ mappingTarget es = targetText v) ∨
      ((∀ v, ¬ AsTarget es v) ∧ ∃ cause, mappingTarget es = .error (.invalidDirective cause)) := by
  simp only [asTarget_iff hd]
  unfold mappingTarget
  cases hurl : Entries.get? urlpathKey es <;> cases htarget : Entries.get? targetKey es <;> simp

theorem ofTarget_mappingTarget_cases (hd : Entries.Distinct es)
    (hidentifiers : ∀ e ∈ es, ∃ key, e.1.text? = some key ∧ isIdentifier key = true) :
    (∃ d, Addressed es d.target ∧ mappingTarget es >>= ofTarget = .ok d) ∨
      ((∀ target, ¬ Addressed es target) ∧ ∃ cause, mappingTarget es >>= ofTarget = .error (.invalidDirective cause)) := by
  rcases mappingTarget_cases hd with ⟨v, hv, hmapping⟩ | ⟨hnone, cause, herror⟩
  · rw [hmapping]
    rcases ofTarget_targetText_cases v with ⟨d, hnames, hok⟩ | ⟨hnone, herror⟩
    · exact .inl ⟨d, ⟨hidentifiers, v, hv, hnames⟩, hok⟩
    · refine .inr ⟨fun target h => ?_, herror⟩
      obtain ⟨w, hw, hnames⟩ := h.names
      exact hnone target (hw.unique hd hv ▸ hnames)
  · refine .inr ⟨fun target h => ?_, cause, by rw [herror]; rfl⟩
    obtain ⟨v, hv, -⟩ := h.names
    exact hnone v hv

/-! ### Flattening -/

theorem flattenFlag_string (s : String) : flattenFlag (.string s) =
    match Value.ofYaml s with
    | .ok w =>
      match w.truth? with
      | some b => .ok b
      | none => .error (.config (.flattenNotBoolean (.string s)))
    | .error _ => .error (.config .flattenUnreadable) := by
  unfold flattenFlag
  dsimp only
  cases Value.ofYaml s with
  | error fault => rfl
  | ok w => cases w.truth? <;> rfl

theorem flattenFlag_of_not_string (h : ∀ s, v ≠ .string s) : flattenFlag v =
    match v.truth? with
    | some b => .ok b
    | none => .error (.config (.flattenNotBoolean v)) := by
  cases v with
  | string s => exact absurd rfl (h s)
  | _ => rfl

theorem flattenFlag_eq_ok_iff {b : Bool} : flattenFlag v = .ok b ↔ Flag v b := by
  constructor
  · intro h
    by_cases hstring : ∃ s, v = .string s
    · obtain ⟨s, rfl⟩ := hstring
      rw [flattenFlag_string] at h
      split at h
      · rename_i w hread
        split at h <;> cases h
        exact .text hread ‹_›
      · cases h
    · rw [flattenFlag_of_not_string fun s heq => hstring ⟨s, heq⟩] at h
      split at h <;> cases h
      exact .truth ‹_›
  · rintro (h | ⟨hread, h⟩)
    · have hne : ∀ s, v ≠ .string s := by
        rintro s rfl
        cases h
      rw [flattenFlag_of_not_string hne, h]
    · rw [flattenFlag_string, hread]
      dsimp only
      rw [h]

theorem config_of_flattenFlag (h : flattenFlag v = .error f) : ∃ cause, f = .config cause := by
  by_cases hstring : ∃ s, v = .string s
  · obtain ⟨s, rfl⟩ := hstring
    rw [flattenFlag_string] at h
    repeat' split at h
    all_goals cases h
    all_goals exact ⟨_, rfl⟩
  · rw [flattenFlag_of_not_string fun s heq => hstring ⟨s, heq⟩] at h
    split at h <;> cases h
    exact ⟨_, rfl⟩

theorem mappingFlatten_cases (hd : Entries.Distinct es) :
    (∃ b, mappingFlatten es = .ok b ∧ Flagged es) ∨
      (¬ Flagged es ∧ ∃ cause, mappingFlatten es = .error (.config cause)) := by
  unfold mappingFlatten
  cases hget : Entries.get? flattenKey es with
  | none =>
    refine .inl ⟨false, rfl, fun v hv => ?_⟩
    exact absurd hv (Entries.get?_eq_none_iff.mp hget v)
  | some v =>
    have hmem := Entries.mem_of_get? hget
    cases hflag : flattenFlag v with
    | ok b =>
      refine .inl ⟨b, hflag, fun w hw => ⟨b, ?_⟩⟩
      rw [← Entries.get?_eq_some_iff hd, hget] at hw
      cases hw
      exact flattenFlag_eq_ok_iff.mp hflag
    | error f =>
      obtain ⟨cause, rfl⟩ := config_of_flattenFlag hflag
      refine .inr ⟨fun hall => ?_, cause, hflag⟩
      obtain ⟨b, hb⟩ := hall v hmem
      rw [flattenFlag_eq_ok_iff.mpr hb] at hflag
      cases hflag

theorem badKey?_eq_none_iff :
    badKey? es = none ↔ ∀ e ∈ es, ∃ key, e.1.text? = some key ∧ isIdentifier key = true := by
  simp [badKey?, isIdentifierKey, Option.any_eq_true]

/-! ## All forms -/

/-- The payloads that state a directive, with its target. -/
inductive Stated : Value → String → Prop
  | scalar {v : Value} {target : String} (h : Names v target) : Stated v target
  | sequence {first : Value} {rest : List Value} {target : String} (h : Names first target) :
      Stated (.sequence (first :: rest)) target
  | mapping {es : Entries} {target : String} (h : Addressed es target) (hflag : Flagged es) : Stated (.mapping es) target

/-- A payload in the mapping form, in which nothing is wrong but what flattening is asked for with. -/
def Unflagged (p : Value) : Prop := ∃ es target, p = .mapping es ∧ Addressed es target ∧ ¬ Flagged es

inductive Outcome (p : Value) : Except Fault Directive → Prop
  | stated {d : Directive} (h : Stated p d.target) : Outcome p (.ok d)
  | unflagged (h : Unflagged p) (cause : ConfigFault) : Outcome p (.error (.config cause))
  | invalid (hs : ∀ target, ¬ Stated p target) (hu : ¬ Unflagged p) (cause : DirectiveFault) :
      Outcome p (.error (.invalidDirective cause))

theorem stated_mapping_iff : Stated (.mapping es) target ↔ Addressed es target ∧ Flagged es := by
  constructor
  · rintro (h | h | ⟨h, hflag⟩)
    · cases h.spells
    · exact ⟨h, hflag⟩
  · exact fun h => .mapping h.1 h.2

theorem stated_sequence_iff {items : List Value} :
    Stated (.sequence items) target ↔ ∃ first rest, items = first :: rest ∧ Names first target := by
  constructor
  · rintro (h | h | h)
    · cases h.spells
    · exact ⟨_, _, rfl, h⟩
  · rintro ⟨first, rest, rfl, h⟩
    exact .sequence h

theorem Stated.unique {target' : String} (hp : p.HasDistinctKeys) (h : Stated p target) (h' : Stated p target') :
    target = target' := by
  cases p with
  | mapping es =>
    exact (stated_mapping_iff.mp h).1.unique (hp es rfl) (stated_mapping_iff.mp h').1
  | sequence items =>
    obtain ⟨first, rest, rfl, hnames⟩ := stated_sequence_iff.mp h
    obtain ⟨_, _, heq, hnames'⟩ := stated_sequence_iff.mp h'
    cases heq
    exact hnames.unique hnames'
  | _ =>
    cases h with
    | scalar hnames =>
      cases h' with
      | scalar hnames' => exact hnames.unique hnames'

theorem Stated.not_unflagged (h : Stated p target) : ¬ Unflagged p := by
  rintro ⟨es, _, rfl, -, hflagged⟩
  exact hflagged (stated_mapping_iff.mp h).2

theorem not_unflagged (h : ∀ es, p ≠ .mapping es) : ¬ Unflagged p := by
  rintro ⟨es, -, rfl, -⟩
  exact h es rfl

theorem Outcome.of_not_addressed (h : ∀ target, ¬ Addressed es target) (cause : DirectiveFault) :
    Outcome (.mapping es) (.error (.invalidDirective cause)) := by
  refine .invalid (fun target hs => h target (stated_mapping_iff.mp hs).1) ?_ cause
  rintro ⟨es', target, heq, haddressed, -⟩
  cases heq
  exact h target haddressed

theorem outcome_ofMapping (hd : Entries.Distinct es) : Outcome (.mapping es) (ofMapping es) := by
  unfold ofMapping
  cases hbad : badKey? es with
  | some key =>
    refine .of_not_addressed (fun target h => ?_) _
    rw [badKey?_eq_none_iff.mpr h.identifiers] at hbad
    cases hbad
  | none =>
    dsimp only
    rw [← bind_assoc]
    rcases ofTarget_mappingTarget_cases hd (badKey?_eq_none_iff.mp hbad) with
      ⟨d, haddressed, hok⟩ | ⟨hnone, cause, herror⟩
    · rw [hok]
      rcases mappingFlatten_cases hd with ⟨b, hflatten, hflagged⟩ | ⟨hflagged, cause, hflatten⟩
      · rw [hflatten]
        exact .stated (.mapping haddressed hflagged)
      · rw [hflatten]
        exact .unflagged ⟨es, d.target, rfl, haddressed, hflagged⟩ cause
    · rw [herror]
      exact .of_not_addressed hnone cause

theorem Outcome.of_names {f : Directive → Directive} (hf : ∀ d, (f d).target = d.target)
    (hp : ∀ es, p ≠ .mapping es) (hstated : ∀ target, Stated p target ↔ Names v target) :
    Outcome p ((targetText v >>= ofTarget).map f) := by
  rcases ofTarget_targetText_cases v with ⟨d, hnames, hok⟩ | ⟨hnone, cause, herror⟩
  · rw [hok]
    exact .stated ((hstated _).mpr (hf d ▸ hnames))
  · rw [herror]
    exact .invalid (fun target h => hnone target ((hstated target).mp h)) (not_unflagged hp) cause

theorem outcome_ofNode (hp : p.HasDistinctKeys) : Outcome p (ofNode p) := by
  have hscalar : (∀ items, p ≠ .sequence items) → (∀ es, p ≠ .mapping es) →
      Outcome p ((targetText p >>= ofTarget).map id) := by
    intro hsequence hmapping
    refine .of_names (fun _ => rfl) hmapping fun target => ⟨?_, .scalar⟩
    rintro (h | _ | _)
    · exact h
    · exact absurd rfl (hsequence _)
    · exact absurd rfl (hmapping _)
  rw [Except.map_id] at hscalar
  cases p with
  | mapping es => exact outcome_ofMapping (hp es rfl)
  | sequence items =>
    cases items with
    | nil =>
      refine .invalid (fun target h => ?_) (not_unflagged fun es heq => by cases heq) _
      obtain ⟨first, rest, heq, -⟩ := stated_sequence_iff.mp h
      cases heq
    | cons first rest =>
      have hof : ofNode (.sequence (first :: rest)) =
          (targetText first >>= ofTarget).map fun d => { d with positional := rest } := by
        rw [ofNode, ← bind_assoc]
        cases targetText first >>= ofTarget <;> rfl
      rw [hof]
      refine .of_names (fun _ => rfl) (fun es heq => by cases heq) fun target => ?_
      rw [stated_sequence_iff]
      simp
  | _ => exact hscalar (fun _ heq => by cases heq) fun _ heq => by cases heq

/-- **The grammar of directives.** A payload is read exactly if it is a scalar with a target, a sequence that begins with
one, or a mapping of identifiers with a target under one of two keys and a truth value under that of flattening. Where
only the last is wrong, the fault is one of configuration, and otherwise one of the directive. -/
theorem ofNode_grammar (hp : p.HasDistinctKeys) :
    (∀ target, (∃ d, ofNode p = .ok d ∧ d.target = target) ↔ Stated p target) ∧
      ((∃ cause, ofNode p = .error (.config cause)) ↔ Unflagged p) ∧
      ((∃ cause, ofNode p = .error (.invalidDirective cause)) ↔ (∀ target, ¬ Stated p target) ∧ ¬ Unflagged p) ∧
      ∀ f, ofNode p = .error f → (∃ cause, f = .config cause) ∨ ∃ cause, f = .invalidDirective cause := by
  have hout := outcome_ofNode hp
  revert hout
  generalize ofNode p = result
  rintro (⟨h⟩ | ⟨h, cause⟩ | ⟨hs, hu, cause⟩)
  · rename_i d
    have hu := h.not_unflagged
    refine ⟨fun target => ?_, by simpa using hu, by simpa using fun hs => absurd h (hs _), by simp⟩
    constructor
    · rintro ⟨d', heq, rfl⟩
      cases heq
      exact h
    · exact fun h' => ⟨d, rfl, h.unique hp h'⟩
  · have hs : ∀ target, ¬ Stated p target := fun target hs => hs.not_unflagged h
    simp [hs, h]
  · simp [hs, hu]

def countedPayload : Value := .mapping [(.string "target", .string "a.yaml"), (.string "flatten", .ofNat 1)]

theorem ofNode_grammar_counted : countedPayload.HasDistinctKeys ∧ Unflagged countedPayload ∧
    ∃ cause, ofNode countedPayload = .error (.config cause) := by
  have hdistinct : countedPayload.HasDistinctKeys := by
    rintro es heq
    cases heq
    unfold Entries.Distinct
    decide
  have haddressed : Addressed [(.string "target", .string "a.yaml"), (.string "flatten", .ofNat 1)] "a.yaml" := by
    refine ⟨?_, .string "a.yaml", .inr ⟨List.mem_cons_self, by simp [urlpathKey]⟩, .string _, by decide⟩
    exact List.forall_mem_cons.mpr ⟨⟨"target", rfl, by decide⟩, List.forall_mem_singleton.mpr ⟨"flatten", rfl, by decide⟩⟩
  have hunflagged : Unflagged countedPayload := by
    refine ⟨_, "a.yaml", rfl, haddressed, fun hflagged => ?_⟩
    obtain ⟨b, hflag⟩ := hflagged (.ofNat 1) (List.mem_cons_of_mem _ List.mem_cons_self)
    cases hflag with
    | truth h => cases h
  exact ⟨hdistinct, hunflagged, (ofNode_grammar hdistinct).2.1.mpr hunflagged⟩

end Directive
end Transclusion
