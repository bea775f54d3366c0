import Transclusion.Proofs.Walks.Lazy
import Transclusion.Proofs.Walks.Standing

/-!
# Walks that are started anew

* `firstInclude_replaced` : with another node in the place of its first include, to visit a node again is
  to visit that place and those after it;
* `LazyWalk.Restartable` : a walk finds next what a walk from the root would find;
* `LazyWalk.steps_restart` : a walk that goes on into contents may be dropped and started anew.

A walk from the root passes over what the first walk is through with once more, and finds nothing there.
-/

namespace Transclusion

variable {σ : Type}

/-! ## Visiting a node again -/

theorem Location.items_append (l : Location) (i : Nat) (vs ws : List Value) :
    l.items i (vs ++ ws) = l.items i vs ++ l.items (i + vs.length) ws := by
  unfold Location.items
  rw [List.length_append, ← List.map_append, List.range'_append_1]

section Looking
variable {isInclude : Tag → Bool} {l : Location} {x : Sighting}

/-- The first include in a list of items is in the first item that has one. -/
theorem firstInItems_eq_some {i : Nat} {vs : List Value} (h : firstInItems isInclude l i vs = some x) :
    ∃ before v after y, vs = before ++ v :: after ∧ firstInItems isInclude l i before = none ∧
      firstInclude isInclude (l.child (.index (i + before.length))) v = some y ∧
      x = { y with after := y.after ++ l.items (i + before.length + 1) after } := by
  induction vs generalizing i with
  | nil => cases h
  | cons v vs ih =>
    rw [firstInItems] at h
    cases hv : firstInclude isInclude (l.child (.index i)) v with
    | some y =>
      rw [hv] at h
      cases h
      exact ⟨[], v, vs, y, rfl, rfl, hv, rfl⟩
    | none =>
      rw [hv] at h
      obtain ⟨before, w, after, y, rfl, hbefore, hw, rfl⟩ := ih h
      have hlen : i + 1 + before.length = i + (v :: before).length := by
        rw [List.length_cons]
        omega
      rw [hlen] at hw ⊢
      refine ⟨v :: before, w, after, y, rfl, ?_, hw, rfl⟩
      rw [firstInItems, hv]
      exact hbefore

theorem firstInEntries_eq_some {es : Entries} (h : firstInEntries isInclude l es = some x) :
    ∃ before k v after y, es = before ++ (k, v) :: after ∧ firstInEntries isInclude l before = none ∧
      firstInclude isInclude (l.child (.key k)) v = some y ∧
      x = { y with after := y.after ++ l.entries after } := by
  induction es with
  | nil => cases h
  | cons e es ih =>
    obtain ⟨k, v⟩ := e
    rw [firstInEntries] at h
    cases hv : firstInclude isInclude (l.child (.key k)) v with
    | some y =>
      rw [hv] at h
      cases h
      exact ⟨[], k, v, es, y, rfl, rfl, hv, rfl⟩
    | none =>
      rw [hv] at h
      obtain ⟨before, k', w, after, y, rfl, hbefore, hw, rfl⟩ := ih h
      refine ⟨(k, v) :: before, k', w, after, y, rfl, ?_, hw, rfl⟩
      rw [firstInEntries, hv]
      exact hbefore

/-- When the first include of a node has got another content, a visit to the node comes to the place of
that content, with the same places after it as before. -/
theorem firstInclude_replaced {n root : Value} (hwf : n.WellFormed) (hat : root.at? l = some n)
    (h : firstInclude isInclude l n = some x) (c : Value) :
    ∃ n', root.replaceAt x.location c = root.replaceAt l n' ∧
      ∀ tree rest, tree.at? l = some n' →
        nextInclude isInclude tree (l :: rest) =
          nextInclude isInclude tree (x.location :: (x.after ++ rest)) := by
  induction n using Value.inductionOn generalizing l x with
  | null => cases h
  | bool b => cases h
  | number i => cases h
  | string t => cases h
  | tagged t p =>
    rw [firstInclude] at h
    split at h
    · cases h
      exact ⟨c, rfl, fun tree rest _ => rfl⟩
    · cases h
  | sequence items ih =>
    rw [firstInclude] at h
    obtain ⟨before, v, after, y, rfl, hbefore, hv, rfl⟩ := firstInItems_eq_some h
    rw [Nat.zero_add] at hv
    have hmem : v ∈ before ++ v :: after := List.mem_append_right before List.mem_cons_self
    have hwfv : v.WellFormed := (Value.all_parts_sequence _ |>.mp hwf).2 v hmem
    obtain ⟨v', hput, hvisit⟩ := ih v hmem hwfv (Value.at?_item hat) hv
    refine ⟨.sequence (before ++ v' :: after), hput.trans (Value.replaceAt_item hat v'), ?_⟩
    intro tree rest htree
    -- nothing is found in the items before
    have hskip : ∀ places, nextInclude isInclude tree (l.items 0 before ++ places) =
        nextInclude isInclude tree places := by
      intro places
      rw [nextInclude_items, hbefore]
      intro j w hw
      have hj : j < before.length := (List.getElem?_eq_some_iff.mp hw).1
      rw [Nat.zero_add, Value.at?_child htree, Value.child?, List.getElem?_append_left hj]
      exact hw
    rw [nextInclude_sequence htree, Location.items_append, Location.items_cons, Nat.zero_add,
      List.append_assoc, hskip, List.cons_append, hvisit tree _ (Value.at?_item htree), List.append_assoc]
  | mapping es ih =>
    rw [firstInclude] at h
    obtain ⟨before, k, v, after, y, rfl, hbefore, hv, rfl⟩ := firstInEntries_eq_some h
    obtain ⟨hd, hes⟩ := Value.all_parts_mapping _ |>.mp hwf
    have hmem : (k, v) ∈ before ++ (k, v) :: after := List.mem_append_right before List.mem_cons_self
    have hvat := Value.at?_entry (hd _ rfl) hat _ hmem
    obtain ⟨v', hput, hvisit⟩ := (ih _ hmem).2 (hes _ hmem).2 hvat hv
    -- the keys are what they were
    have hd' : Entries.Distinct (before ++ (k, v') :: after) := (hd _ rfl).congr_keys (by simp)
    refine ⟨.mapping (before ++ (k, v') :: after), hput.trans (Value.replaceAt_entry (hd _ rfl) hat v'), ?_⟩
    intro tree rest htree
    have hvalue := Value.at?_entry hd' htree
    have hskip : ∀ places, nextInclude isInclude tree (l.entries before ++ places) =
        nextInclude isInclude tree places := by
      intro places
      rw [nextInclude_entries fun e he => hvalue e (List.mem_append_left _ he), hbefore]
    have hv' : tree.at? (l.child (.key k)) = some v' := hvalue _ (List.mem_append_right _ List.mem_cons_self)
    have hplaces : l.entries (before ++ (k, v') :: after) =
        l.entries before ++ l.child (.key k) :: l.entries after := by
      unfold Location.entries
      rw [List.map_append, List.map_cons]
    rw [nextInclude_mapping hd' htree, hplaces, List.append_assoc, hskip, List.cons_append,
      hvisit tree _ hv', List.append_assoc]

end Looking

/-! ## Starting anew -/

namespace LazyWalk

/-- The walk is not over, and a walk of its tree from the root finds next what it finds. -/
structure Restartable (isInclude : Tag → Bool) (w : LazyWalk) : Prop where
  wellFormed : w.root.WellFormed
  running : w.done = false
  alike : nextInclude isInclude w.root w.pending = nextInclude isInclude w.root [.root]

variable {I : Includer (StateM σ)} {v : Value} {w w' : LazyWalk} {s s₁ s' : σ} {k : Nat}
  {oks : List ResolvedInclude}

theorem Restartable.ofRoot (hwf : v.WellFormed) : Restartable I.isInclude (ofRoot v) := ⟨hwf, rfl, rfl⟩

/-- Both give the same, whatever the backend and the base directory have been asked for before. -/
theorem Restartable.steps_eq (h : Restartable I.isInclude w) (nested : Bool) (n : Nat) :
    steps I nested (n + 1) (LazyWalk.ofRoot w.root) = steps I nested (n + 1) w := by
  obtain ⟨root, p, done⟩ := w
  obtain ⟨-, rfl, halike⟩ := h
  have hnext : next I nested (LazyWalk.ofRoot root) = next I nested ⟨root, p, false⟩ :=
    next_congr halike.symm
  rw [steps, steps, hnext]

theorem firstInclude_root {isInclude : Tag → Bool} {root : Value} {x : Sighting}
    (h : nextInclude isInclude root [.root] = .ok (some x)) :
    firstInclude isInclude .root root = some x := by
  rw [nextInclude_cons (n := root) rfl] at h
  cases hfirst : firstInclude isInclude .root root with
  | none =>
    rw [hfirst] at h
    cases h
  | some y =>
    rw [hfirst] at h
    simp only [List.append_nil, Except.ok.injEq] at h
    exact h

theorem Restartable.next (hl : I.KeepsDistinct) {item : ResolvedInclude} (h : Restartable I.isInclude w)
    (hnext : (next I true w).run s = ((w', some (.ok item)), s')) : Restartable I.isInclude w' := by
  cases Turn.of_next hnext with
  | resolves hfind hd hc =>
    rename_i root p x d c
    have hwf : root.WellFormed := h.wellFormed
    have hfresh : nextInclude I.isInclude root [.root] = .ok (some x) := h.alike.symm.trans hfind
    obtain ⟨-, t, -, hat⟩ := (stand_root root).found hwf hfresh
    obtain ⟨root', hput, hvisit⟩ := firstInclude_replaced hwf rfl (firstInclude_root hfresh) c
    -- the root is where the walk from it starts, so the tree is the node that is visited again
    have hroot : root.replaceAt x.location c = root' := hput
    refine ⟨hwf.replaceAt (wellFormed_content hl hwf hat hd hc), rfl, ?_⟩
    rw [hroot]
    have hagain := hvisit root' [] rfl
    rw [List.append_nil] at hagain
    exact hagain.symm

/-- So many steps lead to a walk that can be started anew, and whatever that one gives then comes after
what they have given. -/
theorem Restartable.steps (hl : I.KeepsDistinct) (h : Restartable I.isInclude w) (hk : oks.length = k)
    (hsteps : (steps I true k w).run s = ((w', oks.map .ok), s₁)) :
    Restartable I.isInclude w' ∧ ∀ n w₂ items s₂, (steps I true n w').run s₁ = ((w₂, items), s₂) →
      (steps I true (k + n) w).run s = ((w₂, oks.map .ok ++ items), s₂) := by
  induction oks generalizing k w s with
  | nil =>
    subst hk
    cases hsteps
    refine ⟨h, fun n w₂ items s₂ hn => ?_⟩
    rw [List.length_nil, Nat.zero_add]
    exact hn
  | cons ok oks ih =>
    subst hk
    rcases steps_succ_eq hsteps with ⟨-, hnone⟩ | ⟨w₁, item, s₂, rest, hnext, hrest, hitems⟩
    · cases hnone
    · cases hitems
      obtain ⟨hw', hmore⟩ := ih (h.next hl hnext) rfl hrest
      refine ⟨hw', fun n w₂ items s₃ hn => ?_⟩
      rw [List.length_cons, Nat.add_right_comm]
      exact steps_item hnext (hmore n w₂ items s₃ hn)

/-- **A walk that goes on into contents may be stopped after any number of resolved includes and started
anew on the tree it has left.** Both walks do the same from then on, whatever the backend and the base
directory have been asked for meanwhile; and if that is nothing, then the new one gives what was to come
from the first, leaves the same tree and has asked for the same things. -/
theorem steps_restart (hl : I.KeepsDistinct) (hwf : v.WellFormed) (hk : oks.length = k)
    (hsteps : (steps I true k (ofRoot v)).run s = ((w, oks.map .ok), s₁)) :
    (∀ n, steps I true (n + 1) (ofRoot w.root) = steps I true (n + 1) w) ∧
      ∀ n w' items s', (steps I true (n + 1) (ofRoot w.root)).run s₁ = ((w', items), s') →
        (steps I true (k + (n + 1)) (ofRoot v)).run s = ((w', oks.map .ok ++ items), s') := by
  obtain ⟨hw, hmore⟩ := (Restartable.ofRoot hwf).steps hl hk hsteps
  refine ⟨fun n => hw.steps_eq true n, fun n w' items s' hn => ?_⟩
  rw [hw.steps_eq true n] at hn
  exact hmore (n + 1) w' items s' hn

def firstOfMissing : ResolvedInclude :=
  ⟨⟨[.index 0]⟩, ⟨"a", [], [], false, some (.sequence [.tagged includeTag (.string "b")]), by decide⟩⟩

def leftByFirst : Value := .sequence [.sequence [.tagged includeTag (.string "b")]]

/-- What the default brings in is left to the new walk, which fails at it. -/
theorem steps_restart_missing :
    (steps (Memory.noting []) true 1 (ofRoot Includer.missingInDefault)).run [] =
        ((⟨leftByFirst, [⟨[.index 0]⟩], false⟩, [.ok firstOfMissing]), [.openOne "a" {}]) ∧
      (∀ n, steps (Memory.noting []) true (n + 1) (ofRoot leftByFirst) =
        steps (Memory.noting []) true (n + 1) ⟨leftByFirst, [⟨[.index 0]⟩], false⟩) ∧
      (steps (Memory.noting []) true 2 (ofRoot leftByFirst)).run [.openOne "a" {}] =
        ((⟨leftByFirst, [], true⟩, [.error (.fault (.notFound "b"))]),
          [.openOne "a" {}, .openOne "b" {}]) ∧
      (steps (Memory.noting []) true 3 (ofRoot Includer.missingInDefault)).run [] =
        ((⟨leftByFirst, [], true⟩, [.ok firstOfMissing, .error (.fault (.notFound "b"))]),
          [.openOne "a" {}, .openOne "b" {}]) := by
  have hsteps : (steps (Memory.noting []) true 1 (ofRoot Includer.missingInDefault)).run [] =
      ((⟨leftByFirst, [⟨[.index 0]⟩], false⟩, [firstOfMissing].map .ok), [.openOne "a" {}]) := rfl
  have hagain : (steps (Memory.noting []) true 2 (ofRoot leftByFirst)).run [.openOne "a" {}] =
      ((⟨leftByFirst, [], true⟩, [.error (.fault (.notFound "b"))]),
        [.openOne "a" {}, .openOne "b" {}]) := rfl
  have hl : (Memory.noting []).KeepsDistinct := Includer.HasOwnLoader.keepsDistinct (.inl rfl)
  have hone : [firstOfMissing].length = 1 := rfl
  obtain ⟨hsame, hgoes⟩ := steps_restart hl Includer.wellFormed_missingInDefault hone hsteps
  exact ⟨hsteps, hsame, hagain, hgoes 1 _ _ _ hagain⟩

end LazyWalk
end Transclusion
