import Transclusion.Proofs.Values.Keys

/-!
# Places of a tree

* `Value.at?_child` : the node one step further than a place;
* `Value.at?_replaceAt`, `Value.replaceAt_replaceAt`, `Value.replaceAt_at?` : what is put at a place
  that is there is found there, hides what was put there before, and may be what is there already;
* `Value.replaceAt_child` : to replace one step further is to replace a node by one that differs
  there (`replaceAt_item`, `replaceAt_entry` : item by item and value by value);
* `Value.WellFormed.replaceAt` : keys stay distinct whatever is replaced.
-/

namespace Transclusion

namespace Entries

variable {k v : Value} {es : Entries}

theorem find?_replace (h : find? k es = some v) (w : Value) : find? k (replace k w es) = some w := by
  induction es with
  | nil => cases h
  | cons e rest ih =>
    rw [find?] at h
    rw [replace]
    by_cases he : k.same e.1 = true
    · rw [if_pos he, find?, if_pos he]
    · rw [if_neg he] at h
      rw [if_neg he, find?, if_neg he, ih h]

theorem replace_replace (k v w : Value) (es : Entries) :
    replace k w (replace k v es) = replace k w es := by
  induction es with
  | nil => rfl
  | cons e rest ih =>
    rw [replace, replace]
    by_cases he : k.same e.1 = true
    · rw [if_pos he, if_pos he, replace, if_pos he]
    · rw [if_neg he, if_neg he, replace, if_neg he, ih]

theorem replace_find? (h : find? k es = some v) : replace k v es = es := by
  induction es with
  | nil => cases h
  | cons e rest ih =>
    rw [find?] at h
    rw [replace]
    by_cases he : k.same e.1 = true
    · rw [if_pos he] at h ⊢
      cases h
      rfl
    · rw [if_neg he] at h ⊢
      rw [ih h]

theorem exists_mem_of_find? (h : find? k es = some v) : ∃ k', (k', v) ∈ es := by
  induction es with
  | nil => cases h
  | cons e rest ih =>
    rw [find?] at h
    by_cases he : k.same e.1 = true
    · rw [if_pos he] at h
      cases h
      exact ⟨e.1, List.mem_cons_self⟩
    · rw [if_neg he] at h
      obtain ⟨k', hk'⟩ := ih h
      exact ⟨k', List.mem_cons_of_mem e hk'⟩

theorem keys_replace (k w : Value) (es : Entries) : (replace k w es).map (·.1) = es.map (·.1) := by
  induction es with
  | nil => rfl
  | cons e rest ih =>
    rw [replace]
    by_cases he : k.same e.1 = true
    · rw [if_pos he]
      rfl
    · rw [if_neg he, List.map_cons, List.map_cons, ih]

theorem forall_mem_replace {R S : Value → Prop} (h : ∀ e ∈ es, R e.1 ∧ S e.2) {w : Value} (hw : S w) :
    ∀ e ∈ replace k w es, R e.1 ∧ S e.2 := by
  induction es with
  | nil => exact h
  | cons e rest ih =>
    have he := h e List.mem_cons_self
    have hrest := fun f hf => h f (List.mem_cons_of_mem e hf)
    rw [replace]
    split
    · exact List.forall_mem_cons.mpr ⟨⟨he.1, hw⟩, hrest⟩
    · exact List.forall_mem_cons.mpr ⟨he, ih hrest⟩

end Entries

namespace Value

variable {tree n c : Value} {s : Segment}

/-! ## One step -/

theorem child?_replaceChild (h : tree.child? s = some c) (w : Value) :
    (tree.replaceChild s w).child? s = some w := by
  cases tree <;> cases s <;> try cases h
  case sequence.index items i =>
    obtain ⟨hi, -⟩ := List.getElem?_eq_some_iff.mp h
    simp [replaceChild, child?, hi]
  case mapping.key es k => exact Entries.find?_replace h w

theorem replaceChild_replaceChild (tree : Value) (s : Segment) (v w : Value) :
    (tree.replaceChild s v).replaceChild s w = tree.replaceChild s w := by
  cases tree <;> cases s <;> try rfl
  case sequence.index items i => simp [replaceChild]
  case mapping.key es k => simp [replaceChild, Entries.replace_replace]

theorem replaceChild_child? (h : tree.child? s = some c) : tree.replaceChild s c = tree := by
  cases tree <;> cases s <;> try cases h
  case sequence.index items i =>
    obtain ⟨hi, rfl⟩ := List.getElem?_eq_some_iff.mp h
    simp [replaceChild]
  case mapping.key es k => simp [replaceChild, Entries.replace_find? h]

/-! ## A way down -/

variable {way : List Segment}

theorem follow?_cons_eq_some (h : tree.follow? (s :: way) = some n) :
    ∃ c, tree.child? s = some c ∧ c.follow? way = some n := by
  rw [follow?] at h
  exact Option.bind_eq_some_iff.mp h

theorem follow?_append (tree : Value) (way rest : List Segment) :
    tree.follow? (way ++ rest) = (tree.follow? way).bind fun n => n.follow? rest := by
  induction way generalizing tree with
  | nil => rfl
  | cons s way ih =>
    rw [List.cons_append, follow?, follow?, Option.bind_assoc]
    simp only [ih]

theorem follow?_replaceAlong (h : tree.follow? way = some n) (w : Value) :
    (tree.replaceAlong w way).follow? way = some w := by
  induction way generalizing tree with
  | nil => rfl
  | cons s way ih =>
    obtain ⟨c, hc, hrest⟩ := follow?_cons_eq_some h
    rw [replaceAlong, hc]
    rw [follow?, child?_replaceChild hc, Option.bind_some, ih hrest]

theorem replaceAlong_replaceAlong (h : tree.follow? way = some n) (v w : Value) :
    (tree.replaceAlong v way).replaceAlong w way = tree.replaceAlong w way := by
  induction way generalizing tree with
  | nil => rfl
  | cons s way ih =>
    obtain ⟨c, hc, hrest⟩ := follow?_cons_eq_some h
    simp only [replaceAlong, hc, child?_replaceChild hc, replaceChild_replaceChild, ih hrest]

theorem replaceAlong_follow? (h : tree.follow? way = some n) : tree.replaceAlong n way = tree := by
  induction way generalizing tree with
  | nil =>
    cases h
    rfl
  | cons s way ih =>
    obtain ⟨c, hc, hrest⟩ := follow?_cons_eq_some h
    simp only [replaceAlong, hc, ih hrest, replaceChild_child? hc]

theorem replaceAlong_append (h : tree.follow? way = some n) (w : Value) (rest : List Segment) :
    tree.replaceAlong w (way ++ rest) = tree.replaceAlong (n.replaceAlong w rest) way := by
  induction way generalizing tree with
  | nil =>
    cases h
    rfl
  | cons s way ih =>
    obtain ⟨c, hc, hrest⟩ := follow?_cons_eq_some h
    simp only [List.cons_append, replaceAlong, hc, ih hrest]

/-! ## A place -/

variable {l : Location}

theorem at?_child (h : tree.at? l = some n) (s : Segment) : tree.at? (l.child s) = n.child? s := by
  unfold at? at h ⊢
  rw [Location.child, follow?_append, h, Option.bind_some, follow?]
  cases n.child? s <;> rfl

theorem at?_replaceAt (h : tree.at? l = some n) (w : Value) : (tree.replaceAt l w).at? l = some w :=
  follow?_replaceAlong h w

theorem replaceAt_replaceAt (h : tree.at? l = some n) (v w : Value) :
    (tree.replaceAt l v).replaceAt l w = tree.replaceAt l w :=
  replaceAlong_replaceAlong h v w

theorem replaceAt_at? (h : tree.at? l = some n) : tree.replaceAt l n = tree := replaceAlong_follow? h

theorem replaceAt_child (h : tree.at? l = some n) (hc : n.child? s = some c) (w : Value) :
    tree.replaceAt (l.child s) w = tree.replaceAt l (n.replaceChild s w) := by
  have hstep : n.replaceAlong w [s] = n.replaceChild s w := by
    rw [replaceAlong, hc]
    rfl
  unfold replaceAt
  rw [Location.child, replaceAlong_append h, hstep]

/-! ### What a collection holds -/

section Holding
variable {vs ws : List Value} {v : Value} {es fs : Entries} {k : Value}

theorem child?_item (vs : List Value) (v : Value) (ws : List Value) :
    (sequence (vs ++ v :: ws)).child? (.index vs.length) = some v := by
  simp [child?]

/-- The item after others, at its place. -/
theorem at?_item (h : tree.at? l = some (.sequence (vs ++ v :: ws))) :
    tree.at? (l.child (.index vs.length)) = some v := by
  rw [at?_child h, child?_item]

theorem replaceAt_item (h : tree.at? l = some (.sequence (vs ++ v :: ws))) (w : Value) :
    tree.replaceAt (l.child (.index vs.length)) w = tree.replaceAt l (.sequence (vs ++ w :: ws)) := by
  rw [replaceAt_child h (child?_item vs v ws)]
  simp [replaceChild]

/-- The values of entries with distinct keys, at their places. -/
theorem at?_entry (hd : Entries.Distinct es) (h : tree.at? l = some (.mapping es)) :
    ∀ e ∈ es, tree.at? (l.child (.key e.1)) = some e.2 := by
  intro e he
  obtain ⟨before, after, rfl⟩ := List.append_of_mem he
  rw [at?_child h]
  exact Entries.find?_append hd

/-- To replace the value of an entry is to replace the mapping by one with another value there. -/
theorem replaceAt_entry (hd : Entries.Distinct (es ++ (k, v) :: fs))
    (h : tree.at? l = some (.mapping (es ++ (k, v) :: fs))) (w : Value) :
    tree.replaceAt (l.child (.key k)) w = tree.replaceAt l (.mapping (es ++ (k, w) :: fs)) := by
  have hchild : (mapping (es ++ (k, v) :: fs)).child? (.key k) = some v := Entries.find?_append hd
  rw [replaceAt_child h hchild, replaceChild, Entries.replace_append hd]

end Holding

/-! ## Distinct keys -/

theorem WellFormed.child (h : tree.WellFormed) (hc : tree.child? s = some c) : c.WellFormed := by
  cases tree <;> cases s <;> try cases hc
  case sequence.index items i =>
    exact (all_parts_sequence items |>.mp h).2 c (List.mem_of_getElem? hc)
  case mapping.key es k =>
    obtain ⟨k', hk'⟩ := Entries.exists_mem_of_find? hc
    exact ((all_parts_mapping es |>.mp h).2 _ hk').2

theorem WellFormed.replaceChild {w : Value} (h : tree.WellFormed) (hw : w.WellFormed) :
    (tree.replaceChild s w).WellFormed := by
  cases tree <;> cases s <;> try exact h
  case sequence.index items i =>
    refine (all_parts_sequence _).mpr ⟨nofun, fun v hv => ?_⟩
    rcases List.mem_or_eq_of_mem_set hv with hv | rfl
    · exact (all_parts_sequence items |>.mp h).2 v hv
    · exact hw
  case mapping.key es k =>
    obtain ⟨hd, hes⟩ := all_parts_mapping es |>.mp h
    refine (all_parts_mapping _).mpr ⟨?_, Entries.forall_mem_replace hes hw⟩
    intro fs hfs
    cases hfs
    exact (hd es rfl).congr_keys (Entries.keys_replace k w es)

theorem WellFormed.at? (h : tree.WellFormed) (hat : tree.at? l = some n) : n.WellFormed := by
  unfold Value.at? at hat
  generalize l.segments = way at hat
  induction way generalizing tree with
  | nil =>
    cases hat
    exact h
  | cons s way ih =>
    obtain ⟨c, hc, hrest⟩ := follow?_cons_eq_some hat
    exact ih (h.child hc) hrest

/-- Whatever is put at a place, keys stay distinct. -/
theorem WellFormed.replaceAt {w : Value} (h : tree.WellFormed) (hw : w.WellFormed) :
    (tree.replaceAt l w).WellFormed := by
  unfold Value.replaceAt
  generalize l.segments = way
  induction way generalizing tree with
  | nil => exact hw
  | cons s way ih =>
    rw [replaceAlong]
    split
    · rename_i c hc
      exact h.replaceChild (ih (h.child hc))
    · exact h

end Value
end Transclusion
