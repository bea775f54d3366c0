import Transclusion.Proofs.Directives.Payload

/-!
# Which directives are read back

* `Entries.hasKey_insert`, `Entries.filter_extend` : the keys after insertions, and the entries under
  some of them;
* `Directive.Built` : a directive made step by step, its named parameters under distinct keys;
* `Directive.Expressible` : no parameter is out of place and no key in the way of another;
* `Directive.ofNode_toNode_iff` : exactly these are read back from the nodes that they are written as.
-/

namespace Transclusion

/-! ## Sameness -/

namespace Value

theorem text?_eq_of_same {v w : Value} (h : v.same w = true) : v.text? = w.text? := by
  induction v using inductionOn generalizing w with
  | null => cases w with
    | null => rfl
    | _ => cases h
  | bool b => cases w with
    | bool c => rfl
    | _ => cases h
  | number n => cases w with
    | number k => rfl
    | _ => cases h
  | string s => rw [eq_of_string_same h]
  | sequence items => cases w with
    | sequence others => rfl
    | _ => cases h
  | mapping es => cases w with
    | mapping fs => rfl
    | _ => cases h
  | tagged t v ih => cases w with
    | tagged u w =>
      rw [same, Bool.and_eq_true] at h
      rw [text?_tagged, text?_tagged]
      exact ih h.2
    | _ => cases h

end Value

/-! ## Keys after insertions -/

namespace Entries

variable {es pairs : Entries} {k v : Value}

theorem hasKey_eq_true_iff : hasKey k es = true ↔ ∃ e ∈ es, k.same e.1 = true := by
  induction es with
  | nil => simp [hasKey]
  | cons e rest ih => simp [hasKey, ih]

theorem hasKey_insert_self : hasKey k (insert es k v) = true := by
  induction es with
  | nil => simp [insert, hasKey, Value.same_refl]
  | cons e rest ih =>
    rw [insert]
    split
    · rename_i he
      simp [hasKey, he]
    · simp [hasKey, ih]

theorem hasKey_insert {k' : Value} (h : hasKey k' es = true) : hasKey k' (insert es k v) = true := by
  induction es with
  | nil => cases h
  | cons e rest ih =>
    rw [hasKey, Bool.or_eq_true] at h
    rw [insert]
    split
    · simpa [hasKey] using h
    · rcases h with h | h
      · simp [hasKey, h]
      · simp [hasKey, ih h]

theorem extend_cons (es : Entries) (p : Value × Value) (rest : Entries) :
    extend es (p :: rest) = extend (insert es p.1 p.2) rest := rfl

theorem hasKey_extend {k' : Value} (h : hasKey k' es = true) : hasKey k' (extend es pairs) = true := by
  induction pairs generalizing es with
  | nil => exact h
  | cons p rest ih =>
    rw [extend_cons]
    exact ih (hasKey_insert h)

theorem hasKey_extend_of_mem {p : Value × Value} (hp : p ∈ pairs) :
    hasKey p.1 (extend es pairs) = true := by
  induction pairs generalizing es with
  | nil => cases hp
  | cons q rest ih =>
    rw [extend_cons]
    rcases List.mem_cons.mp hp with rfl | hp
    · exact hasKey_extend hasKey_insert_self
    · exact ih hp

/-! ### Entries under some of the keys -/

variable {P : Value → Bool} (hP : ∀ a b : Value, a.same b = true → P a = P b)
include hP

theorem filter_insert_of_not (hk : P k = false) :
    (insert es k v).filter (fun e => P e.1) = es.filter fun e => P e.1 := by
  induction es with
  | nil => simp [insert, hk]
  | cons e rest ih =>
    rw [insert]
    split
    · rename_i he
      have hold : P e.1 = false := (hP k e.1 he).symm.trans hk
      simp [hold]
    · rw [List.filter_cons, List.filter_cons, ih]

theorem filter_extend
    (h : Distinct (es.filter (fun e => P e.1) ++ pairs.filter fun e => P e.1)) :
    (extend es pairs).filter (fun e => P e.1) =
      es.filter (fun e => P e.1) ++ pairs.filter fun e => P e.1 := by
  induction pairs generalizing es with
  | nil => simp [extend]
  | cons p rest ih =>
    rw [extend_cons]
    by_cases hp : P p.1 = true
    · have hsplit : (p :: rest).filter (fun e => P e.1) = p :: rest.filter fun e => P e.1 :=
        List.filter_cons_of_pos hp
      rw [hsplit] at h ⊢
      have hnew : hasKey p.1 es = false := by
        rw [hasKey_eq_false_iff]
        intro e he
        rw [Bool.eq_false_iff]
        intro hsame
        -- an old entry under this key would be among those that are kept
        have hkept : e ∈ es.filter fun e => P e.1 :=
          List.mem_filter.mpr ⟨he, (hP p.1 e.1 hsame).symm.trans hp⟩
        have hdistinct := (List.pairwise_append.mp h).2.2 e hkept p List.mem_cons_self
        rw [hsame] at hdistinct
        cases hdistinct
      have hinsert : (insert es p.1 p.2).filter (fun e => P e.1) =
          es.filter (fun e => P e.1) ++ [p] := by
        rw [insert_of_not_hasKey hnew, List.filter_append]
        exact congrArg _ (List.filter_cons_of_pos hp)
      rw [ih (by rwa [hinsert, List.append_assoc]), hinsert, List.append_assoc]
      rfl
    · have hinsert : (insert es p.1 p.2).filter (fun e => P e.1) = es.filter fun e => P e.1 :=
        filter_insert_of_not hP (Bool.eq_false_iff.mpr hp)
      have hskip : (p :: rest).filter (fun e => P e.1) = rest.filter fun e => P e.1 :=
        List.filter_cons_of_neg hp
      rw [hskip] at h ⊢
      rw [ih (by rwa [hinsert]), hinsert]

end Entries

namespace Directive

/-! ## Directives made step by step -/

/-- A directive that is made from a target and whatever is set afterwards. Named parameters are a
mapping, in which no key is twice. -/
inductive Built : Directive → Prop
  | ofTarget {target : String} {d : Directive} (h : Directive.ofTarget target = .ok d) : Built d
  | withPositional {d : Directive} (h : Built d) (items : List Value) : Built (d.withPositional items)
  | withNamed {d : Directive} (h : Built d) {es : Entries} (hes : Entries.Distinct es) :
      Built (d.withNamed es)
  | withFlatten {d : Directive} (h : Built d) (flatten : Bool) : Built (d.withFlatten flatten)
  | withDefault {d : Directive} (h : Built d) (v : Value) : Built (d.withDefault v)

variable {d : Directive}

theorem Built.distinct (h : d.Built) : Entries.Distinct d.named := by
  induction h with
  | ofTarget h =>
    rw [(ofTarget_fields h).2.1]
    exact Entries.distinct_nil
  | withPositional h items ih => exact ih
  | withNamed h hes ih => exact hes
  | withFlatten h flatten ih => exact ih
  | withDefault h v ih => exact ih

/-! ## Sameness of directives -/

theorem same_refl (d : Directive) : d.same d = true := by
  have hpos : Value.sameAll d.positional d.positional = true :=
    Value.sameAll_refl fun v _ => Value.same_refl v
  have hnamed : (Value.mapping d.named).same (.mapping d.named) = true := Value.same_refl _
  unfold same
  rw [hpos, hnamed]
  cases d.default with
  | none => simp
  | some v => simp [Value.same_refl]

/-! ## What a node has room for -/

/-- Positional parameters stand alone, and named ones are under identifiers that are not reserved. -/
structure Expressible (d : Directive) : Prop where
  form : d.positional = [] ∨ (d.named = [] ∧ d.flatten = false ∧ d.default = none)
  keys : ∀ e ∈ d.named, ∃ key, e.1.text? = some key ∧ isIdentifier key = true ∧ key ∉ reservedKeys

theorem needsMapping_eq_false_iff :
    d.needsMapping = false ↔ d.named = [] ∧ d.flatten = false ∧ d.default = none := by
  simp [needsMapping, and_assoc]

theorem Expressible.writable (h : d.Expressible) (hd : Entries.Distinct d.named) : d.Writable where
  form := by
    rw [needsMapping_eq_false_iff]
    exact h.form
  identifier e he := by
    obtain ⟨key, htext, hidentifier, -⟩ := h.keys e he
    rw [isIdentifierKey, htext]
    exact hidentifier
  free e he := by
    obtain ⟨key, htext, -, hfree⟩ := h.keys e he
    rw [isReservedKey, htext]
    simpa using hfree
  distinct := hd

theorem isReservedKey_congr {k k' : Value} (h : k.same k' = true) :
    (!isReservedKey k) = !isReservedKey k' := by
  rw [isReservedKey, isReservedKey, Value.text?_eq_of_same h]

/-- Every named parameter has its key in the mapping form, and those under reserved keys are all that
can be lost there. -/
theorem exists_payload_eq (hm : d.needsMapping = true) (hd : Entries.Distinct d.named) :
    ∃ es, d.payload = .mapping es ∧ (∀ e ∈ d.named, Entries.hasKey e.1 es = true) ∧
      es.filter (fun e => !isReservedKey e.1) = d.named.filter fun e => !isReservedKey e.1 := by
  have hkept : ∀ a b : Value, a.same b = true → (!isReservedKey a) = !isReservedKey b :=
    fun a b => isReservedKey_congr
  have hurl : (!isReservedKey (.string urlpathKey)) = false := by decide
  have hflatten : (!isReservedKey (.string flattenKey)) = false := by decide
  have hdefault : (!isReservedKey (.string defaultKey)) = false := by decide
  have hfilter : (Entries.extend [(.string urlpathKey, .string d.target)] d.named).filter
      (fun e => !isReservedKey e.1) = d.named.filter fun e => !isReservedKey e.1 := by
    have hstart : [(Value.string urlpathKey, Value.string d.target)].filter
        (fun e => !isReservedKey e.1) = [] := List.filter_cons_of_neg (by rw [hurl]; decide)
    rw [Entries.filter_extend hkept, hstart, List.nil_append]
    rw [hstart, List.nil_append]
    exact hd.sublist List.filter_sublist
  have hkeys : ∀ e ∈ d.named, Entries.hasKey e.1
      (Entries.extend [(.string urlpathKey, .string d.target)] d.named) = true :=
    fun e he => Entries.hasKey_extend_of_mem he
  unfold payload
  rw [if_pos hm]
  refine ⟨_, rfl, ?_, ?_⟩
  · intro e he
    cases d.flatten <;> cases d.default
    · exact hkeys e he
    · exact Entries.hasKey_insert (hkeys e he)
    · exact Entries.hasKey_insert (hkeys e he)
    · exact Entries.hasKey_insert (Entries.hasKey_insert (hkeys e he))
  · cases d.flatten <;> cases d.default
    · exact hfilter
    · exact (Entries.filter_insert_of_not hkept hdefault).trans hfilter
    · exact (Entries.filter_insert_of_not hkept hflatten).trans hfilter
    · exact (Entries.filter_insert_of_not hkept hdefault).trans
        ((Entries.filter_insert_of_not hkept hflatten).trans hfilter)

/-- What is read back as the same has lost nothing. -/
theorem expressible_of_same {d' : Directive} (hd : Entries.Distinct d.named)
    (hread : ofNode d.payload = .ok d') (hsame : d'.same d = true) : d.Expressible := by
  by_cases hm : d.needsMapping = true
  · obtain ⟨es, hes, hkeys, hfilter⟩ := exists_payload_eq hm hd
    rw [hes] at hread
    obtain ⟨hidentifier, hpos, hnamed, -⟩ := ofMapping_eq_ok hread
    rw [hfilter] at hnamed
    unfold same at hsame
    simp only [Bool.and_eq_true] at hsame
    obtain ⟨⟨⟨⟨-, hsamePos⟩, hsameNamed⟩, -⟩, -⟩ := hsame
    constructor
    · left
      rw [hpos] at hsamePos
      cases hitems : d.positional with
      | nil => rfl
      | cons v rest => simp [hitems, Value.sameAll] at hsamePos
    · intro e he
      -- the entries that are read back are as many as there were, so none was under a reserved key
      have hlength : (d.named.filter fun e => !isReservedKey e.1).length = d.named.length := by
        rw [hnamed, Value.same, Bool.and_eq_true] at hsameNamed
        exact beq_iff_eq.mp hsameNamed.1
      have hfree : isReservedKey e.1 = false := by
        simpa using List.length_filter_eq_length_iff.mp hlength e he
      obtain ⟨f, hf, hkey⟩ := Entries.hasKey_eq_true_iff.mp (hkeys e he)
      have hid : isIdentifierKey e.1 = true := by
        rw [isIdentifierKey, Value.text?_eq_of_same hkey]
        exact hidentifier f hf
      rw [isIdentifierKey, Option.any_eq_true] at hid
      obtain ⟨key, htext, hid⟩ := hid
      rw [isReservedKey, htext] at hfree
      exact ⟨key, htext, hid, by simpa using hfree⟩
  · have hfields := needsMapping_eq_false_iff.mp (Bool.eq_false_iff.mpr hm)
    refine ⟨.inr hfields, ?_⟩
    rw [hfields.1]
    exact fun e he => absurd he List.not_mem_nil

/-- **A directive is read back from its node exactly if the node has room for it**, equality of the
two being that of values or plain equality. Whatever was read from a payload is such a directive. -/
theorem ofNode_toNode_iff (tag : Tag) :
    (∀ d : Directive, d.Built → ∃ p, d.toNode tag = .tagged tag p ∧
      (ofNode p = .ok d ↔ d.Expressible) ∧
      ((∃ d', ofNode p = .ok d' ∧ d'.same d = true) ↔ d.Expressible)) ∧
    ∀ v d, v.HasDistinctKeys → ofNode v = .ok d →
      ∃ p, d.toNode tag = .tagged tag p ∧ ofNode p = .ok d := by
  constructor
  · intro d hd
    have hback : d.Expressible → ofNode d.payload = .ok d :=
      fun h => ofNode_payload (h.writable hd.distinct)
    have hlost {d' : Directive} : ofNode d.payload = .ok d' → d'.same d = true → d.Expressible :=
      expressible_of_same hd.distinct
    refine ⟨d.payload, rfl, ⟨fun h => hlost h d.same_refl, hback⟩, ?_, fun h => ?_⟩
    · rintro ⟨d', hread, hsame⟩
      exact hlost hread hsame
    · exact ⟨d, hback h, d.same_refl⟩
  · intro v d hv hread
    exact ⟨d.payload, rfl, ofNode_payload (writable_of_ofNode hread hv)⟩

def underTaggedKey : Directive where
  target := "a.yaml"
  named := [(.tagged ⟨"x"⟩ (.string "target"), .null)]
  target_shows := rfl

def flattenedPayload : Value :=
  .mapping [(.string "target", .string "a"), (.string "flatten", .bool true), (.string "open", .null)]

theorem ofNode_toNode_iff_tagged :
    underTaggedKey.Built ∧ flattenedPayload.HasDistinctKeys ∧
      (∃ p, underTaggedKey.toNode includeTag = .tagged includeTag p ∧ ofNode p ≠ .ok underTaggedKey) ∧
      ∃ d p, ofNode flattenedPayload = .ok d ∧ d.toNode includeTag = .tagged includeTag p ∧
        ofNode p = .ok d := by
  have hbuilt : underTaggedKey.Built := by
    have hes : Entries.Distinct [(.tagged ⟨"x"⟩ (.string "target"), .null)] :=
      List.pairwise_singleton _ _
    exact .withNamed (.ofTarget (ofTarget_target underTaggedKey)) hes
  have hkeys : flattenedPayload.HasDistinctKeys := by
    rintro es heq
    cases heq
    unfold Entries.Distinct
    decide
  have hlost : ¬ underTaggedKey.Expressible := by
    intro h
    obtain ⟨key, htext, -, hfree⟩ := h.keys _ List.mem_cons_self
    cases htext
    exact hfree (by decide)
  refine ⟨hbuilt, hkeys, ?_, ?_⟩
  · obtain ⟨p, hp, hiff, -⟩ := (ofNode_toNode_iff includeTag).1 underTaggedKey hbuilt
    exact ⟨p, hp, fun h => hlost (hiff.mp h)⟩
  · obtain ⟨d, hd⟩ : ∃ d, ofNode flattenedPayload = .ok d := ⟨_, rfl⟩
    obtain ⟨p, hp, hread⟩ := (ofNode_toNode_iff includeTag).2 flattenedPayload d hkeys hd
    exact ⟨d, p, hd, hp, hread⟩

end Directive
end Transclusion
