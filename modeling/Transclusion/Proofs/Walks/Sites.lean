import Mathlib.Data.List.Basic
import Transclusion.Proofs.Walks.Standing

/-!
# The includes that a walk visits

* `Value.HasAt` : a node is reached from the root of a tree through items and values only;
* `Value.sites` : the includes that are so reached, in document order, with their places;
* `Value.mem_sites_iff`, `Value.nodup_sites` : they are all there, and no place is there twice;
* `remaining` : those at or under the places that a walk has still to visit;
* `Stand.remaining_eq_cons` : what is found next is the first of them, and the others remain.
-/

namespace Transclusion

/-! ## Sites -/

namespace Value

/-- From the root of the tree the place leads to this node, each step being to an item of a sequence or
to the value of an entry. -/
inductive HasAt (root : Value) : Location → Value → Prop
  | root : HasAt root .root root
  | item {l vs i c} (h : HasAt root l (.sequence vs)) (hi : vs[i]? = some c) :
      HasAt root (l.child (.index i)) c
  | value {l es k c} (h : HasAt root l (.mapping es)) (he : (k, c) ∈ es) :
      HasAt root (l.child (.key k)) c

mutual

/-- The places and payloads of the includes at or under a node that is at `here`, in document order.
Other tagged nodes are not entered, nor are keys. -/
def sites (isIncludeTag : Tag → Bool) (here : Location) : Value → List (Location × Value)
  | .tagged t p => if isIncludeTag t then [(here, p)] else []
  | .sequence items => sitesOfItems isIncludeTag here 0 items
  | .mapping entries => sitesOfEntries isIncludeTag here entries
  | _ => []

def sitesOfItems (isIncludeTag : Tag → Bool) (here : Location) (i : Nat) :
    List Value → List (Location × Value)
  | [] => []
  | v :: rest =>
    sites isIncludeTag (here.child (.index i)) v ++ sitesOfItems isIncludeTag here (i + 1) rest

def sitesOfEntries (isIncludeTag : Tag → Bool) (here : Location) : Entries → List (Location × Value)
  | [] => []
  | (k, v) :: rest =>
    sites isIncludeTag (here.child (.key k)) v ++ sitesOfEntries isIncludeTag here rest

end

variable {isIncludeTag : Tag → Bool} {root n : Value} {here : Location} {site : Location × Value}

theorem mem_sitesOfItems {i : Nat} {vs : List Value} : site ∈ sitesOfItems isIncludeTag here i vs ↔
    ∃ j v, vs[j]? = some v ∧ site ∈ sites isIncludeTag (here.child (.index (i + j))) v := by
  induction vs generalizing i with
  | nil => simp [sitesOfItems]
  | cons v vs ih =>
    rw [sitesOfItems, List.mem_append, ih]
    constructor
    · rintro (h | ⟨j, w, hj, h⟩)
      · exact ⟨0, v, rfl, h⟩
      · rw [Nat.add_assoc, Nat.add_comm 1 j] at h
        exact ⟨j + 1, w, hj, h⟩
    · rintro ⟨j, w, hj, h⟩
      cases j with
      | zero =>
        cases hj
        exact .inl h
      | succ j =>
        rw [Nat.add_comm j 1, ← Nat.add_assoc] at h
        exact .inr ⟨j, w, hj, h⟩

theorem mem_sitesOfEntries {es : Entries} : site ∈ sitesOfEntries isIncludeTag here es ↔
    ∃ e ∈ es, site ∈ sites isIncludeTag (here.child (.key e.1)) e.2 := by
  induction es with
  | nil => simp [sitesOfEntries]
  | cons e es ih =>
    rw [sitesOfEntries, List.mem_append, ih]
    simp

theorem hasAt_of_mem_sites (h : root.HasAt here n) (hsite : site ∈ sites isIncludeTag here n) :
    ∃ t, isIncludeTag t = true ∧ root.HasAt site.1 (.tagged t site.2) := by
  induction n using inductionOn generalizing here with
  | null => cases hsite
  | bool b => cases hsite
  | number x => cases hsite
  | string s => cases hsite
  | sequence items ih =>
    obtain ⟨j, v, hj, hv⟩ := mem_sitesOfItems.mp hsite
    rw [Nat.zero_add] at hv
    exact ih v (List.mem_of_getElem? hj) (.item h hj) hv
  | mapping es ih =>
    obtain ⟨e, he, hv⟩ := mem_sitesOfEntries.mp hsite
    exact (ih e he).2 (.value h he) hv
  | tagged t p =>
    rw [sites] at hsite
    split at hsite
    · rename_i ht
      cases List.mem_singleton.mp hsite
      exact ⟨t, ht, h⟩
    · cases hsite

theorem sites_subset (h : root.HasAt here n) :
    sites isIncludeTag here n ⊆ sites isIncludeTag .root root := by
  induction h with
  | root => exact List.Subset.refl _
  | item _ hi ih =>
    intro site hsite
    refine ih (mem_sitesOfItems.mpr ⟨_, _, hi, ?_⟩)
    rwa [Nat.zero_add]
  | value _ he ih => exact fun site hsite => ih (mem_sitesOfEntries.mpr ⟨_, he, hsite⟩)

/-- The sites are the includes that are reached from the root through items and values. -/
theorem mem_sites_iff {l : Location} {p : Value} : (l, p) ∈ sites isIncludeTag .root root ↔
    ∃ t, isIncludeTag t = true ∧ root.HasAt l (.tagged t p) := by
  constructor
  · exact hasAt_of_mem_sites .root
  · rintro ⟨t, ht, h⟩
    refine sites_subset h ?_
    rw [sites, if_pos ht]
    exact List.mem_singleton_self _

/-! ### Once -/

theorem prefix_of_mem_sites (hsite : site ∈ sites isIncludeTag here n) :
    here.segments <+: site.1.segments := by
  induction n using inductionOn generalizing here with
  | null => cases hsite
  | bool b => cases hsite
  | number x => cases hsite
  | string s => cases hsite
  | sequence items ih =>
    obtain ⟨j, v, hj, hv⟩ := mem_sitesOfItems.mp hsite
    exact (List.prefix_append _ _).trans (ih v (List.mem_of_getElem? hj) hv)
  | mapping es ih =>
    obtain ⟨e, he, hv⟩ := mem_sitesOfEntries.mp hsite
    exact (List.prefix_append _ _).trans ((ih e he).2 hv)
  | tagged t p =>
    rw [sites] at hsite
    split at hsite
    · cases List.mem_singleton.mp hsite
      exact List.prefix_refl _
    · cases hsite

/-- Under two nodes right below a third there is no place in common. -/
theorem ne_of_mem_sites {s s' : Segment} {c c' : Value} {site' : Location × Value} (hne : s ≠ s')
    (h : site ∈ sites isIncludeTag (here.child s) c) (h' : site' ∈ sites isIncludeTag (here.child s') c') :
    site.1 ≠ site'.1 := by
  intro heq
  have hprefix := prefix_of_mem_sites h
  have hprefix' := prefix_of_mem_sites h'
  rw [← heq] at hprefix'
  have hlen : (here.child s).segments.length ≤ (here.child s').segments.length := by
    simp [Location.child]
  have hboth := List.prefix_of_prefix_length_le hprefix hprefix' hlen
  have hsame : s = s' := by simpa [Location.child] using hboth
  exact hne hsame

theorem pairwise_sitesOfItems {i : Nat} {vs : List Value}
    (h : ∀ v ∈ vs, ∀ here, (sites isIncludeTag here v).Pairwise fun a b => a.1 ≠ b.1) :
    (sitesOfItems isIncludeTag here i vs).Pairwise fun a b => a.1 ≠ b.1 := by
  induction vs generalizing i with
  | nil => exact .nil
  | cons v vs ih =>
    rw [sitesOfItems, List.pairwise_append]
    refine ⟨h v List.mem_cons_self _, ih fun w hw => h w (List.mem_cons_of_mem v hw), ?_⟩
    intro a ha b hb
    obtain ⟨j, w, -, hw⟩ := mem_sitesOfItems.mp hb
    have hne : i ≠ i + 1 + j := by omega
    exact ne_of_mem_sites (by simpa using hne) ha hw

theorem pairwise_sitesOfEntries {es : Entries} (hd : Entries.Distinct es)
    (h : ∀ e ∈ es, ∀ here, (sites isIncludeTag here e.2).Pairwise fun a b => a.1 ≠ b.1) :
    (sitesOfEntries isIncludeTag here es).Pairwise fun a b => a.1 ≠ b.1 := by
  induction es with
  | nil => exact .nil
  | cons e es ih =>
    obtain ⟨hfirst, hrest⟩ := List.pairwise_cons.mp hd
    rw [sitesOfEntries, List.pairwise_append]
    refine ⟨h e List.mem_cons_self _, ih hrest fun f hf => h f (List.mem_cons_of_mem e hf), ?_⟩
    intro a ha b hb
    obtain ⟨f, hf, hw⟩ := mem_sitesOfEntries.mp hb
    refine ne_of_mem_sites ?_ ha hw
    intro heq
    have hdiffer := hfirst f hf
    rw [← Segment.key.inj heq, same_refl] at hdiffer
    cases hdiffer

/-- No two sites are at the same place. -/
theorem nodup_sites (hwf : n.WellFormed) : ((sites isIncludeTag here n).map (·.1)).Nodup := by
  unfold List.Nodup
  rw [List.pairwise_map]
  induction n using inductionOn generalizing here with
  | null => exact .nil
  | bool b => exact .nil
  | number x => exact .nil
  | string s => exact .nil
  | sequence items ih =>
    have hitems := (all_parts_sequence items |>.mp hwf).2
    exact pairwise_sitesOfItems fun v hv here => ih v hv (hitems v hv)
  | mapping es ih =>
    obtain ⟨hd, hes⟩ := all_parts_mapping es |>.mp hwf
    exact pairwise_sitesOfEntries (hd es rfl) fun e he here => (ih e he).2 (hes e he).2
  | tagged t p =>
    rw [sites]
    split
    · exact List.pairwise_singleton _ _
    · exact .nil

end Value

/-! ## What remains to be visited -/

def remaining (isInclude : Tag → Bool) (root : Value) (pending : List Location) : List (Location × Value) :=
  pending.flatMap fun l =>
    match root.at? l with
    | some n => n.sites isInclude l
    | none => []

section Remaining
variable {isInclude : Tag → Bool} {root n : Value} {l : Location} {rest pending pending' : List Location}

theorem remaining_cons (hat : root.at? l = some n) :
    remaining isInclude root (l :: rest) = n.sites isInclude l ++ remaining isInclude root rest := by
  unfold remaining
  rw [List.flatMap_cons, hat]

theorem remaining_items {i : Nat} {vs : List Value}
    (h : ∀ j v, vs[j]? = some v → root.at? (l.child (.index (i + j))) = some v) :
    remaining isInclude root (l.items i vs ++ rest) =
      Value.sitesOfItems isInclude l i vs ++ remaining isInclude root rest := by
  induction vs generalizing i with
  | nil => rfl
  | cons v vs ih =>
    have hv : root.at? (l.child (.index i)) = some v := h 0 v rfl
    have hvs : ∀ j w, vs[j]? = some w → root.at? (l.child (.index (i + 1 + j))) = some w := by
      intro j w hw
      rw [Nat.add_assoc, Nat.add_comm 1 j]
      exact h (j + 1) w hw
    rw [Location.items_cons, List.cons_append, remaining_cons hv, ih hvs, Value.sitesOfItems,
      List.append_assoc]

theorem remaining_entries {es : Entries} (h : ∀ e ∈ es, root.at? (l.child (.key e.1)) = some e.2) :
    remaining isInclude root (l.entries es ++ rest) =
      Value.sitesOfEntries isInclude l es ++ remaining isInclude root rest := by
  induction es with
  | nil => rfl
  | cons e es ih =>
    have hes := ih fun f hf => h f (List.mem_cons_of_mem e hf)
    unfold Location.entries at hes ⊢
    rw [List.map_cons, List.cons_append, remaining_cons (h e List.mem_cons_self), hes,
      Value.sitesOfEntries, List.append_assoc]

/-- To look at a place leaves what remains to be visited. -/
theorem Looks.remaining_eq (hwf : root.WellFormed) (h : Looks isInclude root pending pending') :
    remaining isInclude root pending = remaining isInclude root pending' := by
  cases h with
  | on hat hn =>
    rename_i l n rest
    rw [remaining_cons hat]
    cases n with
    | sequence items =>
      refine (remaining_items fun j v hv => ?_).symm
      rw [Value.at?_child hat, Nat.zero_add]
      exact hv
    | mapping es =>
      have hd : Entries.Distinct es := (hwf.at? hat) _ .refl es rfl
      exact (remaining_entries (Value.at?_entry hd hat)).symm
    | tagged t p =>
      have ht : isInclude t = false := hn
      rw [Value.sites, ht, if_neg Bool.false_ne_true]
      rfl
    | _ => rfl

theorem remaining_eq_of_looks (hwf : root.WellFormed)
    (h : Relation.ReflTransGen (Looks isInclude root) pending pending') :
    remaining isInclude root pending = remaining isInclude root pending' := by
  induction h with
  | refl => rfl
  | tail _ hlook ih => exact ih.trans (hlook.remaining_eq hwf)

theorem Stand.remaining_eq_nil (hwf : root.WellFormed) (hstand : Stand root pending)
    (h : nextInclude isInclude root pending = .ok none) : remaining isInclude root pending = [] := by
  rcases hstand.finds isInclude hwf with ⟨-, hlooks⟩ | ⟨y, t, hsome, -⟩
  · exact remaining_eq_of_looks hwf hlooks
  · rw [h] at hsome
    cases hsome

/-- What is found next is the first of what remains. Whatever is put in its place, the others remain. -/
theorem Stand.remaining_eq_cons (hwf : root.WellFormed) (hstand : Stand root pending) {x : Sighting}
    (h : nextInclude isInclude root pending = .ok (some x)) (c : Value) :
    remaining isInclude root pending =
      (x.location, x.payload) :: remaining isInclude (root.replaceAt x.location c) x.after := by
  obtain ⟨hlooks, t, ht, hat⟩ := hstand.found hwf h
  have hput := ((hstand.of_looks hwf hlooks).2 c).1
  have hafter : remaining isInclude (root.replaceAt x.location c) x.after =
      remaining isInclude root x.after := by
    unfold remaining
    refine List.flatMap_congr fun l hl => ?_
    rw [hput l hl]
  rw [remaining_eq_of_looks hwf hlooks, remaining_cons hat, Value.sites, if_pos ht, hafter]
  rfl

end Remaining
end Transclusion
