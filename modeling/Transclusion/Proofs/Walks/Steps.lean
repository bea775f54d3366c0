import Transclusion.Proofs.Runs
import Transclusion.Proofs.Values.Places
import Transclusion.Walk.Lazy

/-!
# Walking step by step

* `nextInclude_sequence`, `nextInclude_mapping` : to visit a collection is to visit what it holds;
* `Includer.standIn` : what a walk puts in the place of an include;
* `LazyWalk.next_congr` : a step depends on what is found next and on nothing else;
* `LazyWalk.Turn` : what a step can do;
* `LazyWalk.Leads` : several resolved includes lead from one walk to another;
* `LazyWalk.Gives` : what a walk gives until it gives nothing more;
* `LazyWalk.BringsIn` : the contents that a walk puts into the tree.

A walk that is through with a node need not have the rest of its places on top: there may be places
in front that hold no include. `Leads` is therefore up to what `nextInclude` finds.
-/

namespace Transclusion

/-! ## Looking for the next include -/

def Location.items (l : Location) (i : Nat) (vs : List Value) : List Location :=
  (List.range' i vs.length).map fun j => l.child (.index j)

def Location.entries (l : Location) (es : Entries) : List Location := es.map fun e => l.child (.key e.1)

theorem Location.items_cons (l : Location) (i : Nat) (v : Value) (vs : List Value) :
    l.items i (v :: vs) = l.child (.index i) :: l.items (i + 1) vs := by
  unfold Location.items
  rw [List.length_cons, List.range'_succ, List.map_cons]

section Looking
variable {isInclude : Tag → Bool} {root n : Value} {l : Location} {rest : List Location}

/-- What is found at the first place, or else at the others. -/
theorem nextInclude_cons (h : root.at? l = some n) :
    nextInclude isInclude root (l :: rest) =
      match firstInclude isInclude l n with
      | some x => .ok (some { x with after := x.after ++ rest })
      | none => nextInclude isInclude root rest := by
  cases hfirst : firstInclude isInclude l n with
  | none => simp only [nextInclude, h, hfirst]
  | some x => simp only [nextInclude, h, hfirst]

theorem nextInclude_items {vs : List Value} {i : Nat}
    (h : ∀ j v, vs[j]? = some v → root.at? (l.child (.index (i + j))) = some v) :
    nextInclude isInclude root (l.items i vs ++ rest) =
      match firstInItems isInclude l i vs with
      | some x => .ok (some { x with after := x.after ++ rest })
      | none => nextInclude isInclude root rest := by
  induction vs generalizing i with
  | nil => rfl
  | cons v vs ih =>
    have hv : root.at? (l.child (.index i)) = some v := h 0 v rfl
    have hvs : ∀ j w, vs[j]? = some w → root.at? (l.child (.index (i + 1 + j))) = some w := by
      intro j w hw
      rw [Nat.add_assoc, Nat.add_comm 1 j]
      exact h (j + 1) w hw
    rw [Location.items_cons, List.cons_append, nextInclude_cons hv, ih hvs, firstInItems]
    cases firstInclude isInclude (l.child (.index i)) v with
    | none => rfl
    | some x =>
      simp only [List.append_assoc]
      rfl

theorem nextInclude_entries {es : Entries} (h : ∀ e ∈ es, root.at? (l.child (.key e.1)) = some e.2) :
    nextInclude isInclude root (l.entries es ++ rest) =
      match firstInEntries isInclude l es with
      | some x => .ok (some { x with after := x.after ++ rest })
      | none => nextInclude isInclude root rest := by
  induction es with
  | nil => rfl
  | cons e es ih =>
    have hes := ih fun f hf => h f (List.mem_cons_of_mem e hf)
    unfold Location.entries at hes ⊢
    rw [List.map_cons, List.cons_append, nextInclude_cons (h e List.mem_cons_self), hes, firstInEntries]
    cases firstInclude isInclude (l.child (.key e.1)) e.2 with
    | none => rfl
    | some x => simp only [List.append_assoc]

theorem nextInclude_sequence {vs : List Value} (h : root.at? l = some (.sequence vs)) :
    nextInclude isInclude root (l :: rest) = nextInclude isInclude root (l.items 0 vs ++ rest) := by
  rw [nextInclude_cons h, firstInclude, nextInclude_items]
  intro j v hv
  rw [Value.at?_child h, Nat.zero_add]
  exact hv

theorem nextInclude_mapping {es : Entries} (hd : Entries.Distinct es)
    (h : root.at? l = some (.mapping es)) :
    nextInclude isInclude root (l :: rest) = nextInclude isInclude root (l.entries es ++ rest) := by
  rw [nextInclude_cons h, firstInclude, nextInclude_entries (Value.at?_entry hd h)]

theorem nextInclude_include {t : Tag} {p : Value} (ht : isInclude t = true)
    (h : root.at? l = some (.tagged t p)) :
    nextInclude isInclude root (l :: rest) = .ok (some ⟨l, p, rest⟩) := by
  rw [nextInclude_cons h, firstInclude, if_pos ht]
  rfl

/-- A node without includes need not be visited. -/
theorem nextInclude_skip (h : root.at? l = some n) (hnone : firstInclude isInclude l n = none) :
    nextInclude isInclude root (l :: rest) = nextInclude isInclude root rest := by
  rw [nextInclude_cons h, hnone]

end Looking

/-- What stands for an include with this payload, when its tree is walked. -/
def Includer.standIn {m : Type → Type} [Monad m] (I : Includer m) (payload : Value) : Run m Value := do
  I.resolve (← Run.ofExcept (Directive.ofNode payload))

variable {σ : Type}

namespace LazyWalk

/-! ## Steps -/

section
variable (I : Includer (StateM σ)) (nested : Bool)

/-- These includes, resolved one after the other, lead from one walk to another, or to one that finds
the same next. -/
inductive Leads : List ResolvedInclude → LazyWalk → σ → LazyWalk → σ → Prop
  | alike {root p p' s} (h : nextInclude I.isInclude root p = nextInclude I.isInclude root p') :
    Leads [] ⟨root, p, false⟩ s ⟨root, p', false⟩ s
  | step {oks w s w₁ s₁ w' s' item} (h : (next I nested w).run s = ((w₁, some (.ok item)), s₁))
    (rest : Leads oks w₁ s₁ w' s') : Leads (item :: oks) w s w' s'

/-- The walk gives these items and then nothing more, and leaves `w'` behind. -/
def Gives (w : LazyWalk) (s : σ) (items : List (Except Failure ResolvedInclude)) (w' : LazyWalk)
    (s' : σ) : Prop :=
  ∀ n, items.length < n → (steps I nested n w).run s = ((w', items), s')

/-- A step: there is nothing more, or a place is lost, or what is found next cannot be replaced, or its
content takes its place. -/
inductive Turn : LazyWalk → σ → LazyWalk → Option (Except Failure ResolvedInclude) → σ → Prop
  | ended {w s} (h : w.done = true) : Turn w s w none s
  | nothing {root p s} (h : nextInclude I.isInclude root p = .ok none) :
      Turn ⟨root, p, false⟩ s ⟨root, [], true⟩ none s
  | lost {root p s f} (h : nextInclude I.isInclude root p = .error f) :
      Turn ⟨root, p, false⟩ s ⟨root, [], true⟩ (some (.error (.fault f))) s
  | fails {root p s x e s'} (h : nextInclude I.isInclude root p = .ok (some x))
      (he : (I.standIn x.payload).Ends s (.error e) s') :
      Turn ⟨root, p, false⟩ s ⟨root, [], true⟩ (some (.error e)) s'
  | resolves {root p s x d c s'} (h : nextInclude I.isInclude root p = .ok (some x))
      (hd : Directive.ofNode x.payload = .ok d) (hc : (I.resolve d).Ends s (.ok c) s') :
      Turn ⟨root, p, false⟩ s
        ⟨root.replaceAt x.location c, if nested then x.location :: x.after else x.after, false⟩
        (some (.ok ⟨x.location, d⟩)) s'

inductive BringsIn : LazyWalk → σ → Value → Prop
  | now {w s w₁ item s₁ c} (h : (next I nested w).run s = ((w₁, some (.ok item)), s₁))
    (hc : w₁.root.at? item.location = some c) : BringsIn w s c
  | later {w s w₁ item s₁ c} (h : (next I nested w).run s = ((w₁, some (.ok item)), s₁))
    (rest : BringsIn w₁ s₁ c) : BringsIn w s c

end

section Steps
variable {I : Includer (StateM σ)} {nested : Bool} {root : Value} {p p' : List Location} {s s₁ s' : σ}
  {w w₁ w' : LazyWalk} {x : Sighting} {d : Directive}

/-- Only what is found next counts. -/
theorem next_congr (h : nextInclude I.isInclude root p = nextInclude I.isInclude root p') :
    next I nested ⟨root, p, false⟩ = next I nested ⟨root, p', false⟩ := by
  unfold next
  rw [h]
  rfl

theorem next_nothing (h : nextInclude I.isInclude root p = .ok none) :
    (next I nested ⟨root, p, false⟩).run s = ((⟨root, [], true⟩, none), s) := by
  unfold next
  rw [h]
  rfl

theorem next_done (h : w.done = true) : (next I nested w).run s = ((w, none), s) := by
  unfold next
  rw [if_pos h]
  rfl

theorem next_unreadable {f : Fault} (h : nextInclude I.isInclude root p = .ok (some x))
    (hd : Directive.ofNode x.payload = .error f) :
    (next I nested ⟨root, p, false⟩).run s = ((⟨root, [], true⟩, some (.error (.fault f))), s) := by
  unfold next
  rw [h]
  simp only [hd]
  rfl

theorem next_resolve (h : nextInclude I.isInclude root p = .ok (some x))
    (hd : Directive.ofNode x.payload = .ok d) :
    (next I nested ⟨root, p, false⟩).run s =
      match (I.resolve d).run.run s with
      | (.error e, s₁) => ((⟨root, [], true⟩, some (.error e)), s₁)
      | (.ok v, s₁) =>
        ((⟨root.replaceAt x.location v, if nested then x.location :: x.after else x.after, false⟩,
          some (.ok ⟨x.location, d⟩)), s₁) := by
  unfold next
  rw [h]
  simp only [hd]
  rw [if_neg Bool.false_ne_true, StateT.run_bind]
  rcases (I.resolve d).run.run s with ⟨e | v, s₁⟩ <;> rfl

theorem next_lost {f : Fault} (h : nextInclude I.isInclude root p = .error f) :
    (next I nested ⟨root, p, false⟩).run s = ((⟨root, [], true⟩, some (.error (.fault f))), s) := by
  unfold next
  rw [h]
  rfl

/-- There is a step from everywhere. -/
theorem exists_turn (I : Includer (StateM σ)) (nested : Bool) (w : LazyWalk) (s : σ) :
    ∃ w' item s', (next I nested w).run s = ((w', item), s') ∧ Turn I nested w s w' item s' := by
  obtain ⟨root, p, done⟩ := w
  cases done with
  | true => exact ⟨_, _, _, next_done rfl, .ended rfl⟩
  | false =>
    rcases hfind : nextInclude I.isInclude root p with f | _ | x
    · exact ⟨_, _, _, next_lost hfind, .lost hfind⟩
    · exact ⟨_, _, _, next_nothing hfind, .nothing hfind⟩
    · cases hd : Directive.ofNode x.payload with
      | error f =>
        have he : (I.standIn x.payload).Ends s (.error (.fault f)) s := by
          unfold Includer.standIn
          rw [hd]
          exact Run.Ends.bind_error (Run.Ends.throw _ _)
        exact ⟨_, _, _, next_unreadable hfind hd, .fails hfind he⟩
      | ok d =>
        have hstand : I.standIn x.payload = I.resolve d := by
          unfold Includer.standIn
          rw [hd]
          exact pure_bind _ _
        have hnext : (next I nested ⟨root, p, false⟩).run s = _ := next_resolve hfind hd
        rcases hres : (I.resolve d).run.run s with ⟨e | c, s'⟩
        · rw [hres] at hnext
          rw [← hstand] at hres
          exact ⟨_, _, _, hnext, .fails hfind hres⟩
        · rw [hres] at hnext
          exact ⟨_, _, _, hnext, .resolves hfind hd hres⟩

theorem Turn.of_next {item : Option (Except Failure ResolvedInclude)}
    (h : (next I nested w).run s = ((w', item), s')) : Turn I nested w s w' item s' := by
  obtain ⟨w₁, item₁, s₁, hnext, hturn⟩ := exists_turn I nested w s
  rw [h] at hnext
  cases hnext
  exact hturn

/-! ## Several steps -/

variable {oks : List ResolvedInclude} {item : Except Failure ResolvedInclude}
  {items : List (Except Failure ResolvedInclude)}

theorem Leads.one {item : ResolvedInclude}
    (h : (next I nested w).run s = ((⟨root, p, false⟩, some (.ok item)), s₁)) :
    Leads I nested [item] w s ⟨root, p, false⟩ s₁ :=
  .step h (.alike rfl)

theorem Leads.trans {oks' : List ResolvedInclude} {w₂ : LazyWalk} {s₂ : σ}
    (h : Leads I nested oks w s w₁ s₁) (h' : Leads I nested oks' w₁ s₁ w₂ s₂) :
    Leads I nested (oks ++ oks') w s w₂ s₂ := by
  induction h with
  | alike heq =>
    cases h' with
    | alike heq' => exact .alike (heq.trans heq')
    | step hnext hrest =>
      rw [← next_congr heq] at hnext
      exact .step hnext hrest
  | step hnext _ ih => exact .step hnext (ih h')

theorem BringsIn.of_leads {c : Value} (h : Leads I nested oks w s w₁ s₁)
    (hc : BringsIn I nested w₁ s₁ c) : BringsIn I nested w s c := by
  induction h with
  | alike heq =>
    cases hc with
    | now hnext hat =>
      rw [← next_congr heq] at hnext
      exact .now hnext hat
    | later hnext hrest =>
      rw [← next_congr heq] at hnext
      exact .later hnext hrest
  | step hnext _ ih => exact .later hnext (ih hc)

theorem steps_item {n : Nat} (h : (next I nested w).run s = ((w₁, some item), s₁))
    (hrest : (steps I nested n w₁).run s₁ = ((w', items), s')) :
    (steps I nested (n + 1) w).run s = ((w', item :: items), s') := by
  rw [steps, StateT.run_bind, h]
  change (StateT.run (do let r ← steps I nested n w₁; pure (r.1, item :: r.2)) s₁) = _
  rw [StateT.run_bind, hrest]
  rfl

theorem steps_succ_eq {n : Nat} (h : (steps I nested (n + 1) w).run s = ((w', items), s')) :
    ((next I nested w).run s = ((w', none), s') ∧ items = []) ∨
      ∃ w₁ item s₁ rest, (next I nested w).run s = ((w₁, some item), s₁) ∧
        (steps I nested n w₁).run s₁ = ((w', rest), s') ∧ items = item :: rest := by
  rcases hnext : (next I nested w).run s with ⟨⟨w₁, _ | item⟩, s₁⟩
  · rw [steps, StateT.run_bind, hnext] at h
    cases h
    exact .inl ⟨rfl, rfl⟩
  · rcases hrest : (steps I nested n w₁).run s₁ with ⟨⟨w₂, rest⟩, s₂⟩
    rw [steps_item hnext hrest] at h
    cases h
    exact .inr ⟨w₁, item, s₁, rest, rfl, hrest, rfl⟩

theorem Leads.steps {n : Nat} (h : Leads I nested oks w s w₁ s₁) (hn : n ≤ oks.length) :
    ∃ w' s', (LazyWalk.steps I nested n w).run s = ((w', (oks.take n).map .ok), s') := by
  induction h generalizing n with
  | alike heq =>
    obtain rfl : n = 0 := Nat.le_zero.mp hn
    exact ⟨_, _, rfl⟩
  | step hnext _ ih =>
    cases n with
    | zero => exact ⟨_, _, rfl⟩
    | succ n =>
      obtain ⟨w', s', hsteps⟩ := ih (Nat.le_of_succ_le_succ hn)
      exact ⟨w', s', steps_item hnext hsteps⟩

theorem Gives.nothing (h : (next I nested w).run s = ((w', none), s')) :
    Gives I nested w s [] w' s' := by
  intro n hn
  obtain ⟨k, rfl⟩ : ∃ k, n = k + 1 := ⟨n - 1, by rw [List.length_nil] at hn; omega⟩
  rw [steps, StateT.run_bind, h]
  rfl

theorem Gives.more (h : (next I nested w).run s = ((w₁, some item), s₁))
    (hrest : Gives I nested w₁ s₁ items w' s') : Gives I nested w s (item :: items) w' s' := by
  intro n hn
  rw [List.length_cons] at hn
  obtain ⟨k, rfl⟩ : ∃ k, n = k + 1 := ⟨n - 1, by omega⟩
  exact steps_item h (hrest k (by omega))

/-- Resolved includes come first. -/
theorem Gives.of_leads (h : Leads I nested oks w s w₁ s₁) (hrest : Gives I nested w₁ s₁ items w' s') :
    Gives I nested w s (oks.map .ok ++ items) w' s' := by
  induction h with
  | alike heq =>
    intro n hn
    obtain ⟨k, rfl⟩ : ∃ k, n = k + 1 := ⟨n - 1, by omega⟩
    have hsteps := hrest (k + 1) hn
    rw [steps] at hsteps ⊢
    rw [next_congr heq]
    exact hsteps
  | step hnext _ ih => exact Gives.more hnext (ih hrest)

end Steps
end LazyWalk
end Transclusion
