import Transclusion.Directive
import Transclusion.Proofs.Results
import Transclusion.Proofs.Values.Reading

/-!
# Payloads of directives

* `Directive.ofMapping_eq_ok` : what the mapping form takes over;
* `Directive.Writable` : the directives that a payload can hold in full;
* `Directive.ofNode_payload` : those are read back from what is written;
* `Directive.writable_of_ofNode` : whatever was read can be written;
* `Directive.All` : what holds of every node of a directive, from payload to payload.
-/

namespace Transclusion

open Value (parts)

namespace Entries

theorem get?_append (key : String) (es fs : Entries) :
    get? key (es ++ fs) = (get? key es).or (get? key fs) := by
  induction es with
  | nil => rfl
  | cons e rest ih =>
    rw [List.cons_append, get?, get?]
    split
    · rfl
    · exact ih

variable {key : String} {es : Entries} {v : Value}

theorem get?_eq_none (h : ∀ e ∈ es, isKey key e.1 = false) :
    get? key es = none := by
  induction es with
  | nil => rfl
  | cons e rest ih =>
    rw [get?, h e List.mem_cons_self]
    exact ih fun f hf => h f (List.mem_cons_of_mem e hf)

theorem mem_of_get? (h : get? key es = some v) : (.string key, v) ∈ es := by
  induction es with
  | nil => cases h
  | cons e rest ih =>
    rw [get?] at h
    split at h
    · rename_i hk
      cases h
      rw [← isKey_iff.mp hk]
      exact List.mem_cons_self
    · exact List.mem_cons_of_mem e (ih h)

theorem get?_eq_some_iff (hd : Distinct es) : get? key es = some v ↔ (.string key, v) ∈ es := by
  refine ⟨mem_of_get?, fun hmem => ?_⟩
  obtain ⟨before, after, rfl⟩ := List.append_of_mem hmem
  have hbefore : get? key before = none := by
    refine get?_eq_none fun e he => Bool.eq_false_iff.mpr fun hkey => ?_
    have hne := hd.key_ne e he
    rw [isKey_iff.mp hkey, Value.same_refl] at hne
    cases hne
  rw [get?_append, hbefore, Option.none_or, get?, if_pos (isKey_iff.mpr rfl)]

theorem get?_eq_none_iff : get? key es = none ↔ ∀ v, (.string key, v) ∉ es := by
  constructor
  · intro hnone v hmem
    induction es with
    | nil => cases hmem
    | cons e rest ih =>
      rw [get?] at hnone
      split at hnone
      · cases hnone
      · rename_i hkey
        rcases List.mem_cons.mp hmem with rfl | hmem
        · exact hkey (isKey_iff.mpr rfl)
        · exact ih hnone hmem
  · intro h
    refine get?_eq_none fun e he => Bool.eq_false_iff.mpr fun hkey => ?_
    rw [← Prod.eta e, isKey_iff.mp hkey] at he
    exact h e.2 he

end Entries

namespace Directive

/-! ## Reading -/

theorem ofMapping_eq_ok {es : Entries} {d : Directive} (h : ofMapping es = .ok d) :
    (∀ e ∈ es, isIdentifierKey e.1 = true) ∧ d.positional = [] ∧
      d.named = es.filter (fun e => !isReservedKey e.1) ∧ mappingFlatten es = .ok d.flatten ∧
      d.default = Entries.get? defaultKey es := by
  unfold ofMapping at h
  split at h
  · cases h
  · rename_i hbad
    obtain ⟨target, -, h⟩ := exists_of_bind_eq_ok h
    obtain ⟨d', hd', h⟩ := exists_of_bind_eq_ok h
    obtain ⟨flatten, hflatten, h⟩ := exists_of_bind_eq_ok h
    have hpos : d'.positional = [] := by
      unfold ofTarget at hd'
      split at hd' <;> cases hd'
      rfl
    cases h
    refine ⟨?_, hpos, rfl, hflatten, rfl⟩
    simpa [badKey?] using hbad

theorem ofTarget_fields {target : String} {d : Directive} (h : ofTarget target = .ok d) :
    d.positional = [] ∧ d.named = [] ∧ d.flatten = false ∧ d.default = none := by
  unfold ofTarget at h
  split at h <;> cases h
  exact ⟨rfl, rfl, rfl, rfl⟩

/-! ## Reserved keys -/

theorem isReservedKey_string (s : String) : isReservedKey (.string s) = reservedKeys.contains s := rfl

variable {k : Value} {key : String}

theorem isKey_of_not_reserved (hk : isReservedKey k = false)
    (hkey : reservedKeys.contains key = true) : Entries.isKey key k = false := by
  rw [Bool.eq_false_iff]
  intro h
  rw [Entries.isKey_iff.mp h, isReservedKey_string, hkey] at hk
  cases hk

theorem same_of_not_reserved (hk : isReservedKey k = false) (hkey : reservedKeys.contains key = true) :
    k.same (.string key) = false ∧ (Value.string key).same k = false := by
  have hne : k ≠ .string key := by
    rintro rfl
    rw [isReservedKey_string, hkey] at hk
    cases hk
  constructor
  · rw [Bool.eq_false_iff]
    exact fun h => hne (Value.eq_of_same_string h)
  · rw [Bool.eq_false_iff]
    exact fun h => hne (Value.eq_of_string_same h)

/-! ## Writing -/

/-- A payload can hold all of the directive. -/
structure Writable (d : Directive) : Prop where
  /-- The mapping form has no place for positional parameters. -/
  form : d.positional = [] ∨ d.needsMapping = false
  identifier : ∀ e ∈ d.named, isIdentifierKey e.1 = true
  free : ∀ e ∈ d.named, isReservedKey e.1 = false
  distinct : Entries.Distinct d.named

def extras (d : Directive) : Entries :=
  (if d.flatten then [(.string flattenKey, .bool true)] else []) ++
    d.default.toList.map fun v => (.string defaultKey, v)

def entries (d : Directive) : Entries := (.string urlpathKey, .string d.target) :: (d.named ++ d.extras)

variable {d : Directive}

theorem mem_extras {e : Value × Value} (h : e ∈ d.extras) :
    (e.1 = .string flattenKey ∧ e.2 = .bool true) ∨ (e.1 = .string defaultKey ∧ d.default = some e.2) := by
  rcases List.mem_append.mp h with h | h
  · split at h
    · rw [List.mem_singleton.mp h]
      exact .inl ⟨rfl, rfl⟩
    · cases h
  · obtain ⟨v, hv, rfl⟩ := List.mem_map.mp h
    exact .inr ⟨rfl, Option.mem_toList.mp hv⟩

theorem forall_key_extras {f : Value → Bool} {b : Bool} (hflatten : f (.string flattenKey) = b)
    (hdefault : f (.string defaultKey) = b) : ∀ e ∈ d.extras, f e.1 = b := by
  intro e he
  rcases mem_extras he with ⟨hk, -⟩ | ⟨hk, -⟩
  · rw [hk]
    exact hflatten
  · rw [hk]
    exact hdefault

theorem Writable.hasKey_eq_false (h : d.Writable) {key : String} (hkey : reservedKeys.contains key = true)
    (hne : urlpathKey ≠ key) :
    Entries.hasKey (.string key) ((.string urlpathKey, .string d.target) :: d.named) = false := by
  refine Entries.hasKey_eq_false_iff.mpr (List.forall_mem_cons.mpr ⟨?_, fun e he => ?_⟩)
  · rw [Bool.eq_false_iff]
    intro heq
    cases Value.eq_of_string_same heq
    exact hne rfl
  · exact (same_of_not_reserved (h.free e he) hkey).2

/-- No entry of the mapping form is lost, since all its keys are different. -/
theorem payload_of_needsMapping (h : d.Writable) (hm : d.needsMapping = true) :
    d.payload = .mapping d.entries := by
  have hurl : Entries.Distinct ([(.string urlpathKey, .string d.target)] ++ d.named) := by
    refine List.pairwise_append.mpr ⟨List.pairwise_singleton _ _, h.distinct, ?_⟩
    intro e he f hf
    rw [List.mem_singleton.mp he]
    exact (same_of_not_reserved (h.free f hf) (by decide)).1
  -- each key that is inserted is new, so it goes to the end
  have hflatten := h.hasKey_eq_false (by decide : reservedKeys.contains flattenKey = true) (by decide)
  have hdefault := h.hasKey_eq_false (by decide : reservedKeys.contains defaultKey = true) (by decide)
  have hboth : Entries.hasKey (.string defaultKey)
      ((.string urlpathKey, .string d.target) :: d.named ++ [(.string flattenKey, .bool true)]) =
        false := by
    rw [Entries.hasKey_eq_false_iff] at hdefault ⊢
    exact List.forall_mem_append.mpr ⟨hdefault, List.forall_mem_singleton.mpr (by decide)⟩
  unfold payload entries extras
  rw [if_pos hm, Entries.extend_of_distinct hurl, List.singleton_append]
  cases d.flatten <;> cases d.default
  · simp
  · simp [Entries.insert_of_not_hasKey hdefault]
  · simp [Entries.insert_of_not_hasKey hflatten]
  · simp only [if_true, Entries.insert_of_not_hasKey hflatten, Entries.insert_of_not_hasKey hboth]
    simp

/-! ## Reading back -/

theorem ofTarget_target (d : Directive) :
    ofTarget d.target = .ok { target := d.target, target_shows := d.target_shows } := by
  unfold ofTarget
  rw [dif_neg (by simp [d.target_shows])]

theorem get?_named (h : d.Writable) {key : String} (hkey : reservedKeys.contains key = true) :
    Entries.get? key d.named = none :=
  Entries.get?_eq_none fun e he => isKey_of_not_reserved (h.free e he) hkey

theorem get?_entries (h : d.Writable) {key : String} (hkey : reservedKeys.contains key = true)
    (hne : urlpathKey ≠ key) : Entries.get? key d.entries = Entries.get? key d.extras := by
  have hurl : Entries.isKey key (.string urlpathKey) = false := by
    rw [Bool.eq_false_iff]
    intro heq
    cases Entries.isKey_iff.mp heq
    exact hne rfl
  rw [entries, Entries.get?, hurl, if_neg Bool.false_ne_true, Entries.get?_append, get?_named h hkey,
    Option.none_or]

theorem get?_extras_flatten :
    Entries.get? flattenKey d.extras = if d.flatten then some (.bool true) else none := by
  unfold extras
  cases d.flatten <;> cases d.default <;> rfl

theorem get?_extras_default : Entries.get? defaultKey d.extras = d.default := by
  unfold extras
  cases d.flatten <;> cases d.default <;> rfl

theorem badKey?_entries (h : d.Writable) : badKey? d.entries = none := by
  have hurl : isIdentifierKey (.string urlpathKey) = true := by decide
  have hextras : ∀ e ∈ d.extras, isIdentifierKey e.1 = true := forall_key_extras (by decide) (by decide)
  have hall : ∀ e ∈ d.entries, isIdentifierKey e.1 = true :=
    List.forall_mem_cons.mpr ⟨hurl, List.forall_mem_append.mpr ⟨h.identifier, hextras⟩⟩
  unfold badKey?
  rw [List.find?_eq_none.mpr fun e he => by rw [hall e he]; decide]
  rfl

theorem mappingTarget_entries (h : d.Writable) : mappingTarget d.entries = .ok d.target := by
  have hurl : Entries.get? urlpathKey d.entries = some (.string d.target) := rfl
  have htarget : Entries.get? targetKey d.entries = none := by
    rw [get?_entries h (by decide) (by decide)]
    exact Entries.get?_eq_none (forall_key_extras (by decide) (by decide))
  unfold mappingTarget
  rw [hurl, htarget]
  rfl

theorem mappingFlatten_entries (h : d.Writable) : mappingFlatten d.entries = .ok d.flatten := by
  unfold mappingFlatten
  rw [get?_entries h (by decide) (by decide), get?_extras_flatten]
  cases d.flatten <;> rfl

theorem filter_entries (h : d.Writable) :
    d.entries.filter (fun e => !isReservedKey e.1) = d.named := by
  have hnamed : d.named.filter (fun e => !isReservedKey e.1) = d.named :=
    List.filter_eq_self.mpr fun e he => by rw [h.free e he]; rfl
  have hreserved : ∀ e ∈ d.extras, isReservedKey e.1 = true := forall_key_extras (by decide) (by decide)
  have hextras : d.extras.filter (fun e => !isReservedKey e.1) = [] :=
    List.filter_eq_nil_iff.mpr fun e he => by rw [hreserved e he]; decide
  have hurl : isReservedKey (.string urlpathKey) = true := by decide
  rw [entries, List.filter_cons_of_neg (by rw [hurl]; decide), List.filter_append, hnamed, hextras,
    List.append_nil]

theorem ofNode_payload (h : d.Writable) : ofNode d.payload = .ok d := by
  by_cases hm : d.needsMapping = true
  · have hpos : d.positional = [] := h.form.resolve_right (by simp [hm])
    rw [payload_of_needsMapping h hm, ofNode, ofMapping, badKey?_entries h]
    simp only [mappingTarget_entries h, mappingFlatten_entries h, filter_entries h,
      get?_entries h (by decide : reservedKeys.contains defaultKey = true) (by decide),
      get?_extras_default, bind, Except.bind, ofTarget_target]
    rw [← hpos]
    rfl
  · have hfields : d.named = [] ∧ d.flatten = false ∧ d.default = none := by
      simpa [needsMapping, and_assoc] using hm
    obtain ⟨hnamed, hflatten, hdefault⟩ := hfields
    rw [payload, if_neg hm]
    split
    · rename_i hpos
      simp only [ofNode, targetText, bind, Except.bind, ofTarget_target]
      rw [← hnamed, ← hflatten, ← hdefault, ← List.isEmpty_iff.mp hpos]
    · simp only [ofNode, targetText, bind, Except.bind, ofTarget_target]
      rw [← hnamed, ← hflatten, ← hdefault]
      rfl

/-! ## What was read -/

/-- A directive that is stated in the mapping form, or in one of the two that hold no more than a
target and positional parameters. -/
theorem ofNode_eq_ok {v : Value} (h : ofNode v = .ok d) :
    (∃ es, v = .mapping es ∧ ofMapping es = .ok d) ∨
      (d.named = [] ∧ d.flatten = false ∧ d.default = none ∧
        (d.positional = [] ∨ ∃ first, v = .sequence (first :: d.positional))) := by
  unfold ofNode at h
  split at h
  · cases h
  · rename_i first rest
    obtain ⟨target, -, h⟩ := exists_of_bind_eq_ok h
    obtain ⟨d', hd', h⟩ := exists_of_bind_eq_ok h
    obtain ⟨-, hnamed, hflatten, hdefault⟩ := ofTarget_fields hd'
    cases h
    exact .inr ⟨hnamed, hflatten, hdefault, .inr ⟨first, rfl⟩⟩
  · rename_i es
    exact .inl ⟨es, rfl, h⟩
  · obtain ⟨target, -, h⟩ := exists_of_bind_eq_ok h
    obtain ⟨hpos, hnamed, hflatten, hdefault⟩ := ofTarget_fields h
    exact .inr ⟨hnamed, hflatten, hdefault, .inl hpos⟩

/-- Whatever a payload with distinct keys states can be written. -/
theorem writable_of_ofNode {v : Value} (h : ofNode v = .ok d)
    (hd : ∀ es, v = .mapping es → Entries.Distinct es) : d.Writable := by
  rcases ofNode_eq_ok h with ⟨es, rfl, h⟩ | ⟨hnamed, hflatten, hdefault, -⟩
  · obtain ⟨hidentifier, hpos, hnamed, -⟩ := ofMapping_eq_ok h
    constructor
    · exact .inl hpos
    · rw [hnamed]
      exact fun e he => hidentifier e ((List.mem_filter.mp he).1)
    · rw [hnamed]
      intro e he
      simpa using (List.mem_filter.mp he).2
    · rw [hnamed]
      exact (hd es rfl).sublist List.filter_sublist
  · constructor
    · exact .inr (by simp [needsMapping, hnamed, hflatten, hdefault])
    · simp [hnamed]
    · simp [hnamed]
    · rw [hnamed]
      exact Entries.distinct_nil

/-! ## Nodes of a directive -/

/-- `Q` holds of every node of the parameters and of the default. -/
structure All (Q : Value → Prop) (d : Directive) : Prop where
  positional : ∀ v ∈ d.positional, v.All parts Q
  named : ∀ e ∈ d.named, e.1.All parts Q ∧ e.2.All parts Q
  default : ∀ v, d.default = some v → v.All parts Q

variable {kept : Tag → Prop} {Q : Value → Prop}

/-- What is stated holds no other nodes than the payload does. -/
theorem all_of_ofNode {v : Value} (h : ofNode v = .ok d) (hv : v.All parts Q) : d.All Q := by
  rcases ofNode_eq_ok h with ⟨es, rfl, h⟩ | ⟨hnamed, -, hdefault, hpos⟩
  · obtain ⟨-, hpos, hnamed, -, hdefault⟩ := ofMapping_eq_ok h
    have hes := (Value.all_parts_mapping es |>.mp hv).2
    constructor
    · simp [hpos]
    · rw [hnamed]
      exact fun e he => hes e ((List.mem_filter.mp he).1)
    · intro w hw
      rw [hdefault] at hw
      exact (hes _ (Entries.mem_of_get? hw)).2
  · constructor
    · rcases hpos with hpos | ⟨first, rfl⟩
      · simp [hpos]
      · exact fun w hw => (Value.all_parts_sequence _ |>.mp hv).2 w (List.mem_cons_of_mem first hw)
    · simp [hnamed]
    · simp [hdefault]

theorem all_payload (hQ : NodeRule kept Q) (h : d.All Q) : d.payload.All parts Q := by
  have htext := hQ.all_string
  have hurl : ∀ e ∈ [(Value.string urlpathKey, Value.string d.target)],
      e.1.All parts Q ∧ e.2.All parts Q :=
    List.forall_mem_singleton.mpr ⟨htext urlpathKey, htext d.target⟩
  unfold payload
  split
  · refine hQ.all_mapping ?_ ?_
    · have hnamed : Entries.Distinct (Entries.extend [(.string urlpathKey, .string d.target)] d.named) :=
        Entries.Distinct.extend (List.pairwise_singleton _ _) d.named
      have hflatten := hnamed.insert (.string flattenKey) (.bool true)
      cases d.flatten <;> cases d.default
      · exact hnamed
      · exact hnamed.insert _ _
      · exact hflatten
      · exact hflatten.insert _ _
    · have hnamed := Entries.forall_mem_extend hurl h.named
      have hflatten := Entries.forall_mem_insert hnamed (htext flattenKey)
        (Value.all_parts_bool true |>.mpr (hQ.bool true))
      have hdefault := h.default
      revert hdefault
      cases d.flatten <;> cases d.default <;> intro hdefault
      · exact hnamed
      · exact Entries.forall_mem_insert hnamed (htext defaultKey) (hdefault _ rfl)
      · exact hflatten
      · exact Entries.forall_mem_insert hflatten (htext defaultKey) (hdefault _ rfl)
  · split
    · exact htext d.target
    · exact hQ.all_sequence (List.forall_mem_cons.mpr ⟨htext d.target, h.positional⟩)

end Directive
end Transclusion
