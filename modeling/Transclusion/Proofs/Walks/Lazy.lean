import Transclusion.Proofs.Resolution
import Transclusion.Proofs.Walks.InPlace
import Transclusion.Proofs.Walks.Steps

/-!
# One include at a time

* `LazyWalk.Outcome` : a walk goes on with the rest of its places, or fails, with a given tree;
* `LazyWalk.Mirrors` : at a node a walk does what a run does to the node;
* `LazyWalk.replaceInPlace_mirrored` : replacing in place is such a run;
* `Includer.walkInPlace_gives` : a whole walk does what the walk in place does.

The walk in place is a recursion over the tree, the other one a stack of places that are looked up
from the root each time. What carries the induction is that the node at the place on top is the one
that the recursion is at.
-/

namespace Transclusion

variable {σ : Type}

/-! ## In place, over a state -/

section InPlace
variable {isInclude : Tag → Bool} {handle : Tag → Value → StateM σ (Walked Value)} {s s' : σ}

theorem Walked.run_map_eq {α β : Type} {r : StateM σ (Walked α)} {g : α → β} {t : β} {f : Option Failure}
    (h : (do return (← r).map g : StateM σ (Walked β)).run s = (⟨t, f⟩, s')) :
    ∃ a, r.run s = (⟨a, f⟩, s') ∧ g a = t := by
  rw [StateT.run_bind] at h
  rcases hr : r.run s with ⟨⟨a, f'⟩, s₁⟩
  rw [hr] at h
  cases h
  exact ⟨a, rfl, rfl⟩

/-- The first item fails, and all others stay, or they are walked in turn. -/
theorem replaceItemsInPlace_cons {v : Value} {rest ts : List Value} {f : Option Failure}
    (h : (replaceItemsInPlace isInclude handle (v :: rest)).run s = (⟨ts, f⟩, s')) :
    (∃ w e, (replaceInPlace isInclude handle v).run s = (⟨w, some e⟩, s') ∧ f = some e ∧ ts = w :: rest) ∨
      ∃ w s₁ ws, (replaceInPlace isInclude handle v).run s = (⟨w, none⟩, s₁) ∧
        (replaceItemsInPlace isInclude handle rest).run s₁ = (⟨ws, f⟩, s') ∧ ts = w :: ws := by
  rw [replaceItemsInPlace, StateT.run_bind] at h
  rcases hr : (replaceInPlace isInclude handle v).run s with ⟨⟨w, _ | e⟩, s₁⟩
  · rw [hr] at h
    obtain ⟨ws, hws, rfl⟩ := Walked.run_map_eq h
    exact .inr ⟨w, s₁, ws, rfl, hws, rfl⟩
  · rw [hr] at h
    cases h
    exact .inl ⟨w, e, rfl, rfl, rfl⟩

theorem replaceEntriesInPlace_cons {e : Value × Value} {rest ts : Entries} {f : Option Failure}
    (h : (replaceEntriesInPlace isInclude handle (e :: rest)).run s = (⟨ts, f⟩, s')) :
    (∃ w x, (replaceInPlace isInclude handle e.2).run s = (⟨w, some x⟩, s') ∧ f = some x ∧
        ts = (e.1, w) :: rest) ∨
      ∃ w s₁ ws, (replaceInPlace isInclude handle e.2).run s = (⟨w, none⟩, s₁) ∧
        (replaceEntriesInPlace isInclude handle rest).run s₁ = (⟨ws, f⟩, s') ∧ ts = (e.1, w) :: ws := by
  rw [replaceEntriesInPlace, StateT.run_bind] at h
  rcases hr : (replaceInPlace isInclude handle e.2).run s with ⟨⟨w, _ | x⟩, s₁⟩
  · rw [hr] at h
    obtain ⟨ws, hws, rfl⟩ := Walked.run_map_eq h
    exact .inr ⟨w, s₁, ws, rfl, hws, rfl⟩
  · rw [hr] at h
    cases h
    exact .inl ⟨w, x, rfl, rfl, rfl⟩

end InPlace

/-! ## What a walk does at a node -/

namespace LazyWalk

section Outcome
variable (I : Includer (StateM σ)) (nested : Bool)

/-- Where walks go on into contents, those that are brought in have no include under another tag. -/
def Clear (w : LazyWalk) (s : σ) : Prop :=
  nested = true → ∀ c, BringsIn I nested w s c → c.Open I.isInclude

/-- The walk gets as far as `rest`, or fails before that, and has made the tree `left` of its own. Or
else the walk in place was cut off, and this one resolves an include for each of its levels. -/
def Outcome (levels : Nat) (w : LazyWalk) (s : σ) (left : Value) (rest : List Location)
    (failure : Option Failure) (s' : σ) : Prop :=
  match failure with
  | none => ∃ oks, Leads I nested oks w s ⟨left, rest, false⟩ s'
  | some e =>
    (∃ oks w₁ s₁, Leads I nested oks w s w₁ s₁ ∧
      (next I nested w₁).run s₁ = ((⟨left, [], true⟩, some (.error e)), s')) ∨
    (e = .nesting ∧ ∃ oks w₁ s₁, Leads I nested oks w s w₁ s₁ ∧ levels ≤ oks.length)

/-- Visiting the node `n` at any place of any tree does what `walkNode` does to it. -/
def Mirrors (levels : Nat) (walkNode : StateM σ (Walked Value)) (n : Value) : Prop :=
  ∀ ⦃root l rest s t f s'⦄, root.at? l = some n → walkNode.run s = (⟨t, f⟩, s') →
    Clear I nested ⟨root, l :: rest, false⟩ s →
    Outcome I nested levels ⟨root, l :: rest, false⟩ s (root.replaceAt l t) rest f s'

end Outcome

variable {I : Includer (StateM σ)} {nested : Bool} {levels : Nat} {root left : Value} {l : Location}
  {rest : List Location} {f : Option Failure} {s s₁ s' : σ} {w w₁ : LazyWalk} {oks : List ResolvedInclude}

theorem Clear.of_leads (h : Clear I nested w s) (hleads : Leads I nested oks w s w₁ s₁) :
    Clear I nested w₁ s₁ :=
  fun hn c hc => h hn c (.of_leads hleads hc)

/-- Each resolved include on the way makes up for a level. -/
theorem Outcome.of_leads_levels {more : Nat} (hleads : Leads I nested oks w s w₁ s₁)
    (hmore : more ≤ levels + oks.length) (h : Outcome I nested levels w₁ s₁ left rest f s') :
    Outcome I nested more w s left rest f s' := by
  cases f with
  | none =>
    obtain ⟨oks', hrest⟩ := h
    exact ⟨oks ++ oks', hleads.trans hrest⟩
  | some e =>
    rcases h with ⟨oks', w₂, s₂, hrest, hnext⟩ | ⟨he, oks', w₂, s₂, hrest, hlen⟩
    · exact .inl ⟨oks ++ oks', w₂, s₂, hleads.trans hrest, hnext⟩
    · refine .inr ⟨he, oks ++ oks', w₂, s₂, hleads.trans hrest, ?_⟩
      rw [List.length_append]
      omega

theorem Outcome.of_leads (hleads : Leads I nested oks w s w₁ s₁)
    (h : Outcome I nested levels w₁ s₁ left rest f s') : Outcome I nested levels w s left rest f s' :=
  h.of_leads_levels hleads (Nat.le_add_right _ _)

theorem Outcome.of_failure {e : Failure} {rest' : List Location}
    (h : Outcome I nested levels w s left rest (some e) s') :
    Outcome I nested levels w s left rest' (some e) s' := h

variable {handle : Tag → Value → StateM σ (Walked Value)}

theorem items_outcome (done : List Value) {vs ts : List Value}
    (h : ∀ v ∈ vs, Mirrors I nested levels (replaceInPlace I.isInclude handle v) v)
    (hat : root.at? l = some (.sequence (done ++ vs)))
    (hrun : (replaceItemsInPlace I.isInclude handle vs).run s = (⟨ts, f⟩, s'))
    (hclear : Clear I nested ⟨root, l.items done.length vs ++ rest, false⟩ s) :
    Outcome I nested levels ⟨root, l.items done.length vs ++ rest, false⟩ s
      (root.replaceAt l (.sequence (done ++ ts))) rest f s' := by
  induction vs generalizing root done ts s with
  | nil =>
    cases hrun
    rw [Value.replaceAt_at? hat]
    exact ⟨[], .alike rfl⟩
  | cons v vs ih =>
    rw [Location.items_cons, List.cons_append] at hclear ⊢
    have hv := Value.at?_item hat
    have hput := Value.replaceAt_item hat
    rcases replaceItemsInPlace_cons hrun with ⟨w, e, hw, rfl, rfl⟩ | ⟨w, s₁, ws, hw, hws, rfl⟩
    · have hout := h v List.mem_cons_self hv hw hclear
      rw [hput] at hout
      exact hout.of_failure
    · obtain ⟨oks, hleads⟩ := h v List.mem_cons_self hv hw hclear
      rw [hput] at hleads
      -- the item now stands with those that were walked before it
      have hat' := Value.at?_replaceAt hat (.sequence (done ++ w :: vs))
      have hlen : done.length + 1 = (done ++ [w]).length := by simp
      have hassoc : ∀ us, done ++ w :: us = (done ++ [w]) ++ us := by simp
      rw [hassoc vs] at hat' hleads
      rw [hlen] at hleads hclear ⊢
      have hrest := fun u hu => h u (List.mem_cons_of_mem v hu)
      have hout := ih (done ++ [w]) hrest hat' hws (hclear.of_leads hleads)
      rw [Value.replaceAt_replaceAt hat, ← hassoc ws] at hout
      exact hout.of_leads hleads

theorem entries_outcome (done : Entries) {es ts : Entries}
    (h : ∀ e ∈ es, Mirrors I nested levels (replaceInPlace I.isInclude handle e.2) e.2)
    (hd : Entries.Distinct (done ++ es)) (hat : root.at? l = some (.mapping (done ++ es)))
    (hrun : (replaceEntriesInPlace I.isInclude handle es).run s = (⟨ts, f⟩, s'))
    (hclear : Clear I nested ⟨root, l.entries es ++ rest, false⟩ s) :
    Outcome I nested levels ⟨root, l.entries es ++ rest, false⟩ s
      (root.replaceAt l (.mapping (done ++ ts))) rest f s' := by
  induction es generalizing root done ts s with
  | nil =>
    cases hrun
    rw [Value.replaceAt_at? hat]
    exact ⟨[], .alike rfl⟩
  | cons e es ih =>
    obtain ⟨k, v⟩ := e
    have hv := Value.at?_entry hd hat (k, v) (List.mem_append_right done List.mem_cons_self)
    have hput := Value.replaceAt_entry hd hat
    rcases replaceEntriesInPlace_cons hrun with ⟨w, x, hw, rfl, rfl⟩ | ⟨w, s₁, ws, hw, hws, rfl⟩
    · have hout := h _ List.mem_cons_self hv hw hclear
      rw [hput] at hout
      exact hout.of_failure
    · obtain ⟨oks, hleads⟩ := h _ List.mem_cons_self hv hw hclear
      rw [hput] at hleads
      have hat' := Value.at?_replaceAt hat (.mapping (done ++ (k, w) :: es))
      have hassoc : ∀ us, done ++ (k, w) :: us = (done ++ [(k, w)]) ++ us := by simp
      have hd' : Entries.Distinct (done ++ (k, w) :: es) := hd.congr_keys (by simp)
      rw [hassoc es] at hat' hleads hd'
      have hrest := fun e he => h e (List.mem_cons_of_mem _ he)
      have hout := ih (done ++ [(k, w)]) hrest hd' hat' hws (hclear.of_leads hleads)
      rw [Value.replaceAt_replaceAt hat, ← hassoc ws] at hout
      exact hout.of_leads hleads

/-- A node without includes is passed over. -/
theorem Mirrors.pass {n : Value} {walkNode : StateM σ (Walked Value)} (hpure : walkNode = pure ⟨n, none⟩)
    (hnone : ∀ l, firstInclude I.isInclude l n = none) : Mirrors I nested levels walkNode n := by
  intro root l rest s t f s' hat hrun hclear
  rw [hpure] at hrun
  cases hrun
  rw [Value.replaceAt_at? hat]
  exact ⟨[], .alike (nextInclude_skip hat (hnone l))⟩

/-- What a walk does at a tree is what replacing in place does to the tree, if that is so for each
include. -/
theorem replaceInPlace_mirrored
    (hinclude : ∀ t p, I.isInclude t = true → (Value.tagged t p).WellFormed →
      Mirrors I nested levels (handle t p) (.tagged t p))
    {n : Value} (hwf : n.WellFormed) (hopen : n.Open I.isInclude) :
    Mirrors I nested levels (replaceInPlace I.isInclude handle n) n := by
  unfold Value.Open at hopen
  induction n using Value.inductionOn with
  | null => exact Mirrors.pass rfl fun _ => rfl
  | bool b => exact Mirrors.pass rfl fun _ => rfl
  | number x => exact Mirrors.pass rfl fun _ => rfl
  | string x => exact Mirrors.pass rfl fun _ => rfl
  | sequence items ih =>
    intro root l rest s t f s' hat hrun hclear
    have hwf' := (Value.all_parts_sequence items |>.mp hwf).2
    have hopen' := (Value.all_held_sequence items |>.mp hopen).2
    obtain ⟨ts, hts, rfl⟩ := Walked.run_map_eq hrun
    have hleads : Leads I nested [] ⟨root, l :: rest, false⟩ s ⟨root, l.items 0 items ++ rest, false⟩ s :=
      .alike (nextInclude_sequence hat)
    have hitems := fun v hv => ih v hv (hwf' v hv) (hopen' v hv)
    exact (items_outcome [] hitems hat hts (hclear.of_leads hleads)).of_leads hleads
  | mapping es ih =>
    intro root l rest s t f s' hat hrun hclear
    obtain ⟨hd, hwf'⟩ := Value.all_parts_mapping es |>.mp hwf
    have hopen' := (Value.all_held_mapping es |>.mp hopen).2
    obtain ⟨ts, hts, rfl⟩ := Walked.run_map_eq hrun
    have hleads : Leads I nested [] ⟨root, l :: rest, false⟩ s ⟨root, l.entries es ++ rest, false⟩ s :=
      .alike (nextInclude_mapping (hd es rfl) hat)
    have hentries := fun e he => (ih e he).2 (hwf' e he).2 (hopen' e he)
    exact (entries_outcome [] hentries (hd es rfl) hat hts (hclear.of_leads hleads)).of_leads hleads
  | tagged t p ih =>
    by_cases ht : I.isInclude t = true
    · rw [replaceInPlace, if_pos ht]
      exact hinclude t p ht hwf
    · have hplain : I.isInclude t = false := Bool.eq_false_iff.mpr ht
      have hsettled : p.Settled I.isInclude := Value.all_held_tagged t p |>.mp hopen t p rfl hplain
      refine Mirrors.pass ?_ fun l => by rw [firstInclude, if_neg ht]
      rw [replaceInPlace, if_neg ht, replaceInPlace_settled hsettled]
      exact pure_bind _ _

end LazyWalk

/-! ## Whole walks -/

namespace Includer

open LazyWalk

variable {I : Includer (StateM σ)} {nested : Bool}

theorem walkInPlaceWithin_mirrored (hl : I.KeepsDistinct) (levels : Nat) {n : Value} (hwf : n.WellFormed)
    (hopen : n.Open I.isInclude) : Mirrors I nested levels (I.walkInPlaceWithin nested levels n) n := by
  induction levels generalizing n with
  | zero =>
    refine replaceInPlace_mirrored (fun t p _ _ => ?_) hwf hopen
    intro root l rest s t' f s' _ hrun _
    cases hrun
    exact .inr ⟨rfl, [], _, _, .alike rfl, Nat.le_refl 0⟩
  | succ levels ih =>
    refine replaceInPlace_mirrored (fun t p ht hp => ?_) hwf hopen
    intro root l rest s t' f s' hat hrun hclear
    have hfound : nextInclude I.isInclude root (l :: rest) = .ok (some ⟨l, p, rest⟩) :=
      nextInclude_include ht hat
    cases hd : Directive.ofNode p with
    | error e =>
      rw [hd] at hrun
      cases hrun
      rw [Value.replaceAt_at? hat]
      exact .inl ⟨[], _, _, .alike rfl, next_unreadable hfound hd⟩
    | ok d =>
      have hbind : (do I.resolve (← Run.ofExcept (.ok d)) : Run (StateM σ) Value) = I.resolve d :=
        pure_bind _ _
      rw [hd, hbind, StateT.run_bind] at hrun
      have hstep : (next I nested ⟨root, l :: rest, false⟩).run s = _ := next_resolve hfound hd
      have hall := resolve_wellFormed hl (Value.all_parts_tagged t p |>.mp hp).2 hd
      rcases hres : (I.resolve d).run.run s with ⟨e | w, s₁⟩
      · rw [hres] at hstep hrun
        cases hrun
        rw [Value.replaceAt_at? hat]
        exact .inl ⟨[], _, _, .alike rfl, hstep⟩
      · rw [hres] at hstep hrun
        have hw : w.WellFormed := hall s w s₁ hres
        have hat' := Value.at?_replaceAt hat w
        cases nested with
        | false =>
          cases hrun
          exact ⟨_, .one hstep⟩
        | true =>
          -- the content now stands at the place of the include, which is visited again
          have hout := ih hw (hclear rfl w (.now hstep hat')) hat' hrun (hclear.of_leads (.one hstep))
          rw [Value.replaceAt_replaceAt hat] at hout
          exact hout.of_leads_levels (.one hstep) (Nat.le_refl _)

/-- **To ask a walk for one include after the other does what the walk in place does.** It makes the
same tree, leaves the same state, so that the backend and the base directory were asked for the same
things in the same order, and ends with a failure just when that one fails, with the same. Neither the
tree nor, where the walks go on into contents, a content may have an include under another tag, for
only the walk in place enters those.

The walk in place alone may be cut off for nesting. There are more includes to resolve then than the
includer may nest. -/
theorem walkInPlace_gives (hl : I.KeepsDistinct) {v : Value} (hwf : v.WellFormed)
    (hopen : v.Open I.isInclude) {s s' : σ} {t : Value} {f : Option Failure}
    (hcontents : nested = true → ∀ c, BringsIn I nested (ofRoot v) s c → c.Open I.isInclude)
    (hrun : (I.walkInPlace nested v).run s = (⟨t, f⟩, s')) :
    (∃ items w, Gives I nested (ofRoot v) s items w s' ∧ w.root = t ∧
        ∀ e, f = some e ↔ items.getLast? = some (.error e)) ∨
      (f = some .nesting ∧ ∃ (oks : List ResolvedInclude) (w : LazyWalk) (s₁ : σ),
        oks.length = I.nesting + 1 ∧
        (steps I nested (I.nesting + 1) (ofRoot v)).run s = ((w, oks.map .ok), s₁)) := by
  have hmirrored : Mirrors I nested (I.nesting + 1) (I.walkInPlace nested v) v :=
    I.walkInPlaceWithin_mirrored hl _ hwf hopen
  have hroot : v.at? .root = some v := rfl
  have hout : Outcome I nested (I.nesting + 1) (ofRoot v) s t [] f s' := hmirrored hroot hrun hcontents
  cases f with
  | none =>
    obtain ⟨oks, hleads⟩ := hout
    have hend : Gives I nested ⟨t, [], false⟩ s' [] ⟨t, [], true⟩ s' := .nothing (next_nothing rfl)
    refine .inl ⟨_, _, hend.of_leads hleads, rfl, fun e => ?_⟩
    simp
  | some e =>
    rcases hout with ⟨oks, w₁, s₁, hleads, hnext⟩ | ⟨rfl, oks, w₁, s₁, hleads, hlen⟩
    · have hend : Gives I nested w₁ s₁ [.error e] ⟨t, [], true⟩ s' := .more hnext (.nothing (next_done rfl))
      refine .inl ⟨_, _, hend.of_leads hleads, rfl, fun e' => ?_⟩
      simp
    · obtain ⟨w', s₂, hsteps⟩ := hleads.steps hlen
      exact .inr ⟨rfl, _, w', s₂, List.length_take_of_le hlen, hsteps⟩

/-- A missing file whose default includes another one that is missing. -/
def missingInDefault : Value :=
  .sequence [.tagged includeTag (.mapping [(.string "urlpath", .string "a"),
    (.string "default", .sequence [.tagged includeTag (.string "b")])])]

theorem wellFormed_missingInDefault : missingInDefault.WellFormed := by
  have hd : Entries.Distinct [(.string "urlpath", .string "a"),
      (.string "default", .sequence [.tagged includeTag (.string "b")])] := by
    unfold Entries.Distinct
    decide
  unfold Value.WellFormed
  simp [missingInDefault, Value.HasDistinctKeys, hd]

theorem walkInPlace_gives_missing :
    ((Memory.noting []).walkInPlace true missingInDefault).run [] =
        (⟨.sequence [.sequence [.tagged includeTag (.string "b")]], some (.fault (.notFound "b"))⟩,
          [.openOne "a" {}, .openOne "b" {}]) ∧
      ∃ items w, Gives (Memory.noting []) true (ofRoot missingInDefault) [] items w
          [.openOne "a" {}, .openOne "b" {}] ∧
        w.root = .sequence [.sequence [.tagged includeTag (.string "b")]] ∧
        ∀ e, some (.fault (.notFound "b")) = some e ↔ items.getLast? = some (.error e) := by
  have hinclude : (Memory.noting []).isInclude includeTag = true := by decide
  have hopen : missingInDefault.Open (Memory.noting []).isInclude := by
    unfold Value.Open
    simp [missingInDefault, hinclude]
  have hrun : ((Memory.noting []).walkInPlace true missingInDefault).run [] =
      (⟨.sequence [.sequence [.tagged includeTag (.string "b")]], some (.fault (.notFound "b"))⟩,
        [.openOne "a" {}, .openOne "b" {}]) := rfl
  have hfirst : (next (Memory.noting []) true (ofRoot missingInDefault)).run [] =
      ((⟨.sequence [.sequence [.tagged includeTag (.string "b")]], [⟨[.index 0]⟩], false⟩,
        some (.ok ⟨⟨[.index 0]⟩, ⟨"a", [], [], false, some (.sequence [.tagged includeTag (.string "b")]),
          by decide⟩⟩)), [.openOne "a" {}]) := rfl
  have hcontents : ∀ c, BringsIn (Memory.noting []) true (ofRoot missingInDefault) [] c →
      c.Open (Memory.noting []).isInclude := by
    intro c hc
    cases hc with
    | now h hat =>
      rw [hfirst] at h
      cases h
      cases hat
      unfold Value.Open
      simp [hinclude]
    | later h hrest =>
      rw [hfirst] at h
      cases h
      -- the second include fails, so it brings nothing in
      cases hrest with
      | now h _ => cases h
      | later h _ => cases h
  refine ⟨hrun, ?_⟩
  rcases walkInPlace_gives (HasOwnLoader.keepsDistinct (.inl rfl)) wellFormed_missingInDefault hopen
    (fun _ => hcontents) hrun with hgives | ⟨hcut, -⟩
  · exact hgives
  · cases hcut

end Includer
end Transclusion
