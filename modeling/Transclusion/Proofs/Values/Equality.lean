import Transclusion.Proofs.Values.Nodes

/-!
# Equal values

* `Value.alike` : two values are built in the same way (`Value.alike_iff` : they are equal);
* `Value.decidableEq` : so equality of values can be tried.

This is not `Value.same`, for which the order of entries does not count.
-/

namespace Transclusion
namespace Value

mutual

def alike : Value → Value → Bool
  | .null, .null => true
  | .bool a, .bool b => a == b
  | .number a, .number b => a == b
  | .string a, .string b => a == b
  | .sequence a, .sequence b => alikeAll a b
  | .mapping a, .mapping b => alikeEntries a b
  | .tagged s v, .tagged t w => s == t && alike v w
  | _, _ => false

def alikeAll : List Value → List Value → Bool
  | [], [] => true
  | v :: vs, w :: ws => alike v w && alikeAll vs ws
  | _, _ => false

def alikeEntries : Entries → Entries → Bool
  | [], [] => true
  | (k, v) :: es, (l, w) :: fs => alike k l && alike v w && alikeEntries es fs
  | _, _ => false

end

theorem alikeAll_iff {vs ws : List Value} (h : ∀ v ∈ vs, ∀ w, alike v w = true ↔ v = w) :
    alikeAll vs ws = true ↔ vs = ws := by
  induction vs generalizing ws with
  | nil => cases ws <;> simp [alikeAll]
  | cons v rest ih =>
    cases ws with
    | nil => simp [alikeAll]
    | cons w ws =>
      rw [alikeAll, Bool.and_eq_true_iff, h v List.mem_cons_self, ih fun u hu => h u (List.mem_cons_of_mem v hu),
        List.cons.injEq]

theorem alikeEntries_iff {es fs : Entries}
    (h : ∀ e ∈ es, (∀ w, alike e.1 w = true ↔ e.1 = w) ∧ ∀ w, alike e.2 w = true ↔ e.2 = w) :
    alikeEntries es fs = true ↔ es = fs := by
  induction es generalizing fs with
  | nil => cases fs <;> simp [alikeEntries]
  | cons e rest ih =>
    cases fs with
    | nil => simp [alikeEntries]
    | cons f fs =>
      have he := h e List.mem_cons_self
      rw [alikeEntries, Bool.and_eq_true_iff, Bool.and_eq_true_iff, he.1, he.2,
        ih fun g hg => h g (List.mem_cons_of_mem e hg), List.cons.injEq, Prod.ext_iff]

/-- Values that are built in the same way are equal, and no others are. -/
theorem alike_iff {v w : Value} : v.alike w = true ↔ v = w := by
  induction v using inductionOn generalizing w with
  | null => cases w <;> simp [alike]
  | bool b => cases w <;> simp [alike]
  | number n => cases w <;> simp [alike]
  | string s => cases w <;> simp [alike]
  | sequence items ih =>
    cases w with
    | sequence ws => rw [alike, alikeAll_iff fun v hv _ => ih v hv, sequence.injEq]
    | _ => simp [alike]
  | mapping es ih =>
    cases w with
    | mapping fs =>
      rw [alike, alikeEntries_iff fun e he => ⟨fun _ => (ih e he).1, fun _ => (ih e he).2⟩, mapping.injEq]
    | _ => simp [alike]
  | tagged t v ih =>
    cases w with
    | tagged s u => rw [alike, Bool.and_eq_true_iff, beq_iff_eq, ih, tagged.injEq]
    | _ => simp [alike]

instance decidableEq : DecidableEq Value := fun _ _ => decidable_of_iff _ alike_iff

end Value
end Transclusion
