import Mathlib.Logic.Relation
import Transclusion.Value.Entries

/-!
# Nodes of a value

* `Value.parts`, `Value.inner` : the nodes right below a node, with the keys of a mapping or without;
* `Value.All next Q` : `Q` holds of a value and of all that `next` leads to (`all_iff` : one step);
* `Value.inductionOn` : induction over the shapes of a value;
* `Value.FreeOf`, `Value.Settled` : no include anywhere, or none outside keys;
* `Value.Apart` : no include inside a key or inside the payload of another;
* `Value.Open` : no include under another tag;
* `Value.WellFormed` : every mapping has distinct keys.
-/

namespace Transclusion
namespace Value

/-! ## Below a node -/

def parts : Value → List Value
  | .sequence items => items
  | .mapping entries => entries.map (·.1) ++ entries.map (·.2)
  | .tagged _ v => [v]
  | _ => []

/-- The nodes right below a node, keys left out. -/
def inner : Value → List Value
  | .sequence items => items
  | .mapping entries => entries.map (·.2)
  | .tagged _ v => [v]
  | _ => []

def held : Value → List Value
  | .sequence items => items
  | .mapping entries => entries.map (·.2)
  | _ => []

/-- `Q` holds of a value and of every node that steps of `next` lead to. -/
def All (next : Value → List Value) (Q : Value → Prop) (v : Value) : Prop :=
  ∀ n, Relation.ReflTransGen (fun a b => b ∈ next a) v n → Q n

variable {next : Value → List Value} {Q : Value → Prop}

theorem all_iff {v : Value} : v.All next Q ↔ Q v ∧ ∀ c ∈ next v, c.All next Q := by
  constructor
  · intro h
    exact ⟨h v .refl, fun c hc n hn => h n (.head hc hn)⟩
  · rintro ⟨hv, hc⟩ n hn
    rcases Relation.ReflTransGen.cases_head hn with rfl | ⟨c, hstep, hrest⟩
    · exact hv
    · exact hc c hstep n hrest

theorem all_iff_of_nil {v : Value} (h : next v = []) : v.All next Q ↔ Q v := by
  rw [all_iff, h]
  simp

/-- What holds of all nodes that one way of stepping reaches holds of those that a narrower one does. -/
theorem All.narrow {next' : Value → List Value} {v : Value} (h : v.All next Q)
    (hsub : ∀ n, next' n ⊆ next n) : v.All next' Q :=
  fun n hn => h n (Relation.ReflTransGen.mono (fun a _ hb => hsub a hb) v n hn)

theorem inner_subset_parts (v : Value) : v.inner ⊆ v.parts := by
  cases v <;> simp [inner, parts]

/-! ### One step, shape by shape -/

section Shapes
variable (b : Bool) (x : Number) (s : String) (items : List Value) (es : Entries) (t : Tag) (v : Value)

@[simp] theorem all_parts_null : null.All parts Q ↔ Q null := all_iff_of_nil rfl

@[simp] theorem all_parts_bool : (bool b).All parts Q ↔ Q (bool b) := all_iff_of_nil rfl

@[simp] theorem all_parts_number : (number x).All parts Q ↔ Q (number x) := all_iff_of_nil rfl

@[simp] theorem all_parts_string : (string s).All parts Q ↔ Q (string s) := all_iff_of_nil rfl

@[simp] theorem all_parts_sequence :
    (sequence items).All parts Q ↔ Q (sequence items) ∧ ∀ v ∈ items, v.All parts Q := by
  rw [all_iff]; rfl

@[simp] theorem all_parts_mapping :
    (mapping es).All parts Q ↔ Q (mapping es) ∧ ∀ e ∈ es, e.1.All parts Q ∧ e.2.All parts Q := by
  rw [all_iff, parts, List.forall_mem_append, List.forall_mem_map, List.forall_mem_map]
  exact and_congr_right fun _ => ⟨fun h e he => ⟨h.1 e he, h.2 e he⟩,
    fun h => ⟨fun e he => (h e he).1, fun e he => (h e he).2⟩⟩

@[simp] theorem all_parts_tagged :
    (tagged t v).All parts Q ↔ Q (tagged t v) ∧ v.All parts Q := by
  rw [all_iff, parts, List.forall_mem_singleton]

@[simp] theorem all_inner_null : null.All inner Q ↔ Q null := all_iff_of_nil rfl

@[simp] theorem all_inner_bool : (bool b).All inner Q ↔ Q (bool b) := all_iff_of_nil rfl

@[simp] theorem all_inner_number : (number x).All inner Q ↔ Q (number x) := all_iff_of_nil rfl

@[simp] theorem all_inner_string : (string s).All inner Q ↔ Q (string s) := all_iff_of_nil rfl

@[simp] theorem all_inner_sequence :
    (sequence items).All inner Q ↔ Q (sequence items) ∧ ∀ v ∈ items, v.All inner Q := by
  rw [all_iff]; rfl

@[simp] theorem all_inner_mapping :
    (mapping es).All inner Q ↔ Q (mapping es) ∧ ∀ e ∈ es, e.2.All inner Q := by
  rw [all_iff, inner, List.forall_mem_map]

@[simp] theorem all_inner_tagged :
    (tagged t v).All inner Q ↔ Q (tagged t v) ∧ v.All inner Q := by
  rw [all_iff, inner, List.forall_mem_singleton]

@[simp] theorem all_held_sequence :
    (sequence items).All held Q ↔ Q (sequence items) ∧ ∀ v ∈ items, v.All held Q := by
  rw [all_iff]; rfl

@[simp] theorem all_held_mapping :
    (mapping es).All held Q ↔ Q (mapping es) ∧ ∀ e ∈ es, e.2.All held Q := by
  rw [all_iff, held, List.forall_mem_map]

@[simp] theorem all_held_tagged : (tagged t v).All held Q ↔ Q (tagged t v) :=
  all_iff_of_nil rfl

end Shapes

/-! ## Induction over the shapes -/

theorem size_le_sizeAll {items : List Value} {v : Value} (h : v ∈ items) : v.size ≤ sizeAll items := by
  induction items with
  | nil => simp at h
  | cons w rest ih =>
    rw [sizeAll]
    rcases List.mem_cons.mp h with rfl | h
    · omega
    · have := ih h
      omega

theorem size_le_sizeEntries {es : Entries} {e : Value × Value} (h : e ∈ es) :
    e.1.size ≤ sizeEntries es ∧ e.2.size ≤ sizeEntries es := by
  induction es with
  | nil => simp at h
  | cons w rest ih =>
    rw [sizeEntries]
    rcases List.mem_cons.mp h with rfl | h
    · omega
    · have := ih h
      omega

/-- Induction over the shapes of a value. -/
@[elab_as_elim]
theorem inductionOn {P : Value → Prop} (v : Value) (null : P .null) (bool : ∀ b, P (.bool b))
    (number : ∀ n, P (.number n)) (string : ∀ s, P (.string s))
    (sequence : ∀ items, (∀ v ∈ items, P v) → P (.sequence items))
    (mapping : ∀ es : Entries, (∀ e ∈ es, P e.1 ∧ P e.2) → P (.mapping es))
    (tagged : ∀ t v, P v → P (.tagged t v)) : P v := by
  induction h : v.size using Nat.strongRecOn generalizing v with
  | ind n ih =>
    subst h
    cases v with
    | null => exact null
    | bool b => exact bool b
    | number n => exact number n
    | string s => exact string s
    | sequence items =>
      refine sequence items fun w hw => ih _ ?_ w rfl
      have := size_le_sizeAll hw
      rw [size]
      omega
    | mapping es =>
      refine mapping es fun e he => ?_
      have := size_le_sizeEntries he
      exact ⟨ih _ (by rw [size]; omega) e.1 rfl, ih _ (by rw [size]; omega) e.2 rfl⟩
    | tagged t w => exact tagged t w (ih _ (by rw [size]; omega) w rfl)

/-! ## Includes in a value -/

def isInclude (isIncludeTag : Tag → Bool) : Value → Bool
  | .tagged t _ => isIncludeTag t
  | _ => false

def keys : Value → List Value
  | .mapping entries => entries.map (·.1)
  | _ => []

variable (isIncludeTag : Tag → Bool)

/-- No node is an include, keys included. -/
def FreeOf (v : Value) : Prop := v.All parts fun n => n.isInclude isIncludeTag = false

/-- No node outside the keys of mappings is an include. -/
def Settled (v : Value) : Prop := v.All inner fun n => n.isInclude isIncludeTag = false

/-- No include lies inside a key of a mapping or inside the payload of another include. -/
def Apart (v : Value) : Prop :=
  v.All parts fun n => (∀ k ∈ n.keys, k.FreeOf isIncludeTag) ∧
    (n.isInclude isIncludeTag = true → ∀ p ∈ n.parts, p.FreeOf isIncludeTag)

/-- Outside of keys no include lies under a tag that marks none. -/
def Open (v : Value) : Prop :=
  v.All held fun n => ∀ t p, n = .tagged t p → isIncludeTag t = false → p.Settled isIncludeTag

variable {isIncludeTag}

theorem FreeOf.settled {v : Value} (h : v.FreeOf isIncludeTag) : v.Settled isIncludeTag :=
  h.narrow inner_subset_parts

def HasDistinctKeys (n : Value) : Prop := ∀ es, n = .mapping es → Entries.Distinct es

/-- No mapping has a key twice, as is the case for whatever is read from a document. -/
def WellFormed (v : Value) : Prop := v.All parts HasDistinctKeys

end Value
end Transclusion
