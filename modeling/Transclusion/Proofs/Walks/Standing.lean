import Transclusion.Proofs.Resolution
import Transclusion.Proofs.Walks.Steps

/-!
# Places that a walk will visit

* `Stand` : places lead to nodes of a tree, whatever is put at the places before them;
* `Looks` : a walk looks at the first place, and goes on with the places right below it;
* `Stand.finds` : places that stand are looked at until there are no more or an include is found;
* `LazyWalk.Point` : the points of a walk, those between two steps and those inside of one;
* `LazyWalk.Point.stand` : at every point the places still to be visited stand.

A place never lies under another one that is still to be visited. `Stand` says so by what it is needed
for: to replace a node does nothing to the nodes at the other places.
-/

namespace Transclusion

variable {σ : Type}

/-! ## Places -/

/-- The places of the items or values that a node holds. -/
def Location.below (l : Location) : Value → List Location
  | .sequence items => l.items 0 items
  | .mapping entries => l.entries entries
  | _ => []

/-- Each place leads to a node, also when anything else has been put at the places before it, and it
leads to the same node then. -/
def Stand (root : Value) : List Location → Prop
  | [] => True
  | l :: rest => (∃ n, root.at? l = some n) ∧
      ∀ c, (∀ l' ∈ rest, (root.replaceAt l c).at? l' = root.at? l') ∧ Stand (root.replaceAt l c) rest

section Standing
variable {root n : Value} {l : Location} {rest pending : List Location}

theorem stand_root (v : Value) : Stand v [.root] := ⟨⟨v, rfl⟩, fun _ => ⟨nofun, trivial⟩⟩

theorem Stand.tail (h : Stand root (l :: rest)) : Stand root rest := by
  obtain ⟨⟨n, hn⟩, hput⟩ := h
  have hrest := (hput n).2
  rwa [Value.replaceAt_at? hn] at hrest

theorem Stand.at? (h : Stand root pending) : ∀ l ∈ pending, ∃ n, root.at? l = some n := by
  induction pending with
  | nil => exact nofun
  | cons l rest ih => exact List.forall_mem_cons.mpr ⟨h.1, ih h.tail⟩

/-- Another node at the first place leaves the places standing. -/
theorem Stand.put (h : Stand root (l :: rest)) (c : Value) : Stand (root.replaceAt l c) (l :: rest) := by
  obtain ⟨⟨n, hn⟩, hput⟩ := h
  refine ⟨⟨c, Value.at?_replaceAt hn c⟩, fun c' => ?_⟩
  rw [Value.replaceAt_replaceAt hn]
  exact ⟨fun l' hl' => ((hput c').1 l' hl').trans ((hput c).1 l' hl').symm, (hput c').2⟩

theorem Stand.items (done : List Value) {vs : List Value} (hat : root.at? l = some (.sequence (done ++ vs)))
    (h : Stand root (l :: rest)) : Stand root (l.items done.length vs ++ rest) := by
  induction vs generalizing root done with
  | nil => exact h.tail
  | cons v vs ih =>
    rw [Location.items_cons, List.cons_append]
    refine ⟨⟨v, Value.at?_item hat⟩, fun c => ?_⟩
    have hat' := Value.at?_replaceAt hat (.sequence (done ++ c :: vs))
    rw [Value.replaceAt_item hat]
    constructor
    · -- the later items are where they were, and the rest does not lie under `l`
      intro l' hl'
      rcases List.mem_append.mp hl' with hl' | hl'
      · obtain ⟨j, hj, rfl⟩ := List.mem_map.mp hl'
        obtain ⟨i, -, rfl⟩ := List.mem_range'.mp hj
        have hafter : ∀ u, (done ++ u :: vs)[done.length + 1 + 1 * i]? = vs[i]? := by
          intro u
          rw [List.getElem?_append_right (by omega), Nat.one_mul, Nat.add_assoc, Nat.add_sub_cancel_left,
            Nat.add_comm 1 i, List.getElem?_cons_succ]
        rw [Value.at?_child hat, Value.at?_child hat', Value.child?, Value.child?, hafter, hafter]
      · exact (h.2 _).1 l' hl'
    · -- the later items stand in the sequence that has `c` in it
      have hassoc : done ++ c :: vs = (done ++ [c]) ++ vs := by simp
      have hlen : done.length + 1 = (done ++ [c]).length := by simp
      have hstand := h.put (.sequence (done ++ c :: vs))
      rw [hlen]
      rw [hassoc] at hat' hstand ⊢
      exact ih (done ++ [c]) hat' hstand

theorem Stand.entries (done : Entries) {es : Entries} (hd : Entries.Distinct (done ++ es))
    (hat : root.at? l = some (.mapping (done ++ es))) (h : Stand root (l :: rest)) :
    Stand root (l.entries es ++ rest) := by
  induction es generalizing root done with
  | nil => exact h.tail
  | cons e es ih =>
    obtain ⟨k, v⟩ := e
    have hv := Value.at?_entry hd hat (k, v) (List.mem_append_right done List.mem_cons_self)
    refine ⟨⟨v, hv⟩, fun c => ?_⟩
    have hat' := Value.at?_replaceAt hat (.mapping (done ++ (k, c) :: es))
    have hdc : Entries.Distinct (done ++ (k, c) :: es) := hd.congr_keys (by simp)
    change (∀ l' ∈ l.entries es ++ rest, _) ∧ Stand _ (l.entries es ++ rest)
    rw [Value.replaceAt_entry hd hat]
    constructor
    · intro l' hl'
      rcases List.mem_append.mp hl' with hl' | hl'
      · obtain ⟨f, hf, rfl⟩ := List.mem_map.mp hl'
        have hlater : ∀ u, f ∈ done ++ (k, u) :: es := fun u =>
          List.mem_append_right done (List.mem_cons_of_mem (k, u) hf)
        rw [Value.at?_entry hd hat f (hlater v), Value.at?_entry hdc hat' f (hlater c)]
      · exact (h.2 _).1 l' hl'
    · have hassoc : done ++ (k, c) :: es = (done ++ [(k, c)]) ++ es := by simp
      have hstand := h.put (.mapping (done ++ (k, c) :: es))
      rw [hassoc] at hat' hstand hdc ⊢
      exact ih (done ++ [(k, c)]) hdc hat' hstand

theorem Stand.below (hn : n.HasDistinctKeys) (hat : root.at? l = some n) (h : Stand root (l :: rest)) :
    Stand root (l.below n ++ rest) := by
  cases n with
  | sequence items => exact Stand.items [] hat h
  | mapping es => exact Stand.entries [] (hn es rfl) hat h
  | _ => exact h.tail

theorem Location.at?_of_mem_below (hn : n.HasDistinctKeys) (hat : root.at? l = some n) {l' : Location}
    (hl' : l' ∈ l.below n) : ∃ c ∈ n.held, root.at? l' = some c := by
  cases n with
  | sequence items =>
    obtain ⟨j, hj, rfl⟩ := List.mem_map.mp hl'
    obtain ⟨i, hi, rfl⟩ := List.mem_range'.mp hj
    rw [Nat.one_mul, Nat.zero_add, Value.at?_child hat]
    exact ⟨items[i], List.getElem_mem hi, List.getElem?_eq_getElem hi⟩
  | mapping es =>
    obtain ⟨e, he, rfl⟩ := List.mem_map.mp hl'
    exact ⟨e.2, List.mem_map_of_mem he, Value.at?_entry (hn es rfl) hat e he⟩
  | _ => cases hl'

end Standing

/-! ## Looking for the next include -/

section Looking
variable (isInclude : Tag → Bool) (root : Value)

/-- The first place holds no include, and what is right below it is looked at next. -/
inductive Looks : List Location → List Location → Prop
  | on {l n rest} (hat : root.at? l = some n) (hn : n.isInclude isInclude = false) :
      Looks (l :: rest) (l.below n ++ rest)

/-- Looking at places comes to the places `rest`, or to an include before that. -/
def Settles (pending rest : List Location) : Prop :=
  Relation.ReflTransGen (Looks isInclude root) pending rest ∨
    ∃ l t p after, Relation.ReflTransGen (Looks isInclude root) pending (l :: after) ∧
      isInclude t = true ∧ root.at? l = some (.tagged t p)

variable {isInclude root} {l : Location} {n : Value} {rest pending pending' : List Location}

theorem Settles.head (h : Looks isInclude root pending pending') (h' : Settles isInclude root pending' rest) :
    Settles isInclude root pending rest := by
  rcases h' with h' | ⟨l, t, p, after, h', hfound⟩
  · exact .inl (.head h h')
  · exact .inr ⟨l, t, p, after, .head h h', hfound⟩

theorem Settles.append {places : List Location} (h : ∀ l ∈ places, ∀ rest, Settles isInclude root (l :: rest) rest)
    (rest : List Location) : Settles isInclude root (places ++ rest) rest := by
  induction places with
  | nil => exact .inl .refl
  | cons l places ih =>
    rcases h l List.mem_cons_self (places ++ rest) with hl | hfound
    · rcases ih fun l' hl' => h l' (List.mem_cons_of_mem l hl') with hplaces | ⟨l', t, p, after, hplaces, hfound⟩
      · exact .inl (hl.trans hplaces)
      · exact .inr ⟨l', t, p, after, hl.trans hplaces, hfound⟩
    · exact .inr hfound

/-- Looking at a node comes to an end. -/
theorem settles_node (hwf : n.WellFormed) (hat : root.at? l = some n) (rest : List Location) :
    Settles isInclude root (l :: rest) rest := by
  induction n using Value.inductionOn generalizing l rest with
  | null => exact .inl (.single (.on hat rfl))
  | bool b => exact .inl (.single (.on hat rfl))
  | number i => exact .inl (.single (.on hat rfl))
  | string x => exact .inl (.single (.on hat rfl))
  | sequence items ih =>
    refine .head (.on hat rfl) (.append (fun l' hl' rest' => ?_) rest)
    obtain ⟨hd, hitems⟩ := Value.all_parts_sequence items |>.mp hwf
    obtain ⟨c, hc, hatc⟩ := Location.at?_of_mem_below hd hat hl'
    exact ih c hc (hitems c hc) hatc rest'
  | mapping es ih =>
    refine .head (.on hat rfl) (.append (fun l' hl' rest' => ?_) rest)
    obtain ⟨hd, hes⟩ := Value.all_parts_mapping es |>.mp hwf
    obtain ⟨c, hc, hatc⟩ := Location.at?_of_mem_below hd hat hl'
    obtain ⟨e, he, rfl⟩ := List.mem_map.mp hc
    exact (ih e he).2 (hes e he).2 hatc rest'
  | tagged t p =>
    -- an include is found here, and any other tag is passed over with all that is under it
    cases ht : isInclude t with
    | true => exact .inr ⟨l, t, p, rest, .refl, ht, hat⟩
    | false => exact .inl (.single (.on hat ht))

theorem Looks.nextInclude_eq (hwf : root.WellFormed) (h : Looks isInclude root pending pending') :
    nextInclude isInclude root pending = nextInclude isInclude root pending' := by
  cases h with
  | on hat hn =>
    rename_i l n rest
    cases n with
    | sequence items => exact nextInclude_sequence hat
    | mapping es => exact nextInclude_mapping ((hwf.at? hat) _ .refl es rfl) hat
    | tagged t p =>
      have ht : isInclude t = false := hn
      exact nextInclude_skip hat (by rw [firstInclude, ht, if_neg Bool.false_ne_true])
    | _ => exact nextInclude_skip hat rfl

theorem nextInclude_eq_of_looks (hwf : root.WellFormed)
    (h : Relation.ReflTransGen (Looks isInclude root) pending pending') :
    nextInclude isInclude root pending = nextInclude isInclude root pending' := by
  induction h with
  | refl => rfl
  | tail _ hlook ih => exact ih.trans (hlook.nextInclude_eq hwf)

theorem Looks.stand (hwf : root.WellFormed) (h : Looks isInclude root pending pending')
    (hstand : Stand root pending) : Stand root pending' := by
  cases h with
  | on hat hn => exact hstand.below ((hwf.at? hat) _ .refl) hat

theorem Stand.of_looks (hwf : root.WellFormed) (hstand : Stand root pending)
    (h : Relation.ReflTransGen (Looks isInclude root) pending pending') : Stand root pending' := by
  induction h with
  | refl => exact hstand
  | tail _ hlook ih => exact hlook.stand hwf ih

/-- Places that stand are looked at until there are no more, or until the next include is found. -/
theorem Stand.finds (isInclude : Tag → Bool) (hwf : root.WellFormed) (hstand : Stand root pending) :
    (nextInclude isInclude root pending = .ok none ∧
        Relation.ReflTransGen (Looks isInclude root) pending []) ∨
      ∃ x t, nextInclude isInclude root pending = .ok (some x) ∧
        Relation.ReflTransGen (Looks isInclude root) pending (x.location :: x.after) ∧
        isInclude t = true ∧ root.at? x.location = some (.tagged t x.payload) := by
  have hsettles : Settles isInclude root (pending ++ []) [] := by
    refine .append (fun l hl rest => ?_) []
    obtain ⟨n, hat⟩ := hstand.at? l hl
    exact settles_node (hwf.at? hat) hat rest
  rw [List.append_nil] at hsettles
  rcases hsettles with h | ⟨l, t, p, after, h, ht, hat⟩
  · exact .inl ⟨nextInclude_eq_of_looks hwf h, h⟩
  · exact .inr ⟨⟨l, p, after⟩, t, (nextInclude_eq_of_looks hwf h).trans (nextInclude_include ht hat), h, ht, hat⟩

theorem Stand.found (hwf : root.WellFormed) (hstand : Stand root pending) {x : Sighting}
    (h : nextInclude isInclude root pending = .ok (some x)) :
    Relation.ReflTransGen (Looks isInclude root) pending (x.location :: x.after) ∧
      ∃ t, isInclude t = true ∧ root.at? x.location = some (.tagged t x.payload) := by
  rcases hstand.finds isInclude hwf with ⟨hnone, -⟩ | ⟨y, t, hsome, hlooks, ht, hat⟩
  · rw [h] at hnone
    cases hnone
  · rw [h] at hsome
    cases hsome
    exact ⟨hlooks, t, ht, hat⟩

theorem Stand.not_lost (hwf : root.WellFormed) (hstand : Stand root pending) {f : Fault} :
    nextInclude isInclude root pending ≠ .error f := by
  intro h
  rcases hstand.finds isInclude hwf with ⟨hnone, -⟩ | ⟨y, t, hsome, -⟩
  · rw [h] at hnone
    cases hnone
  · rw [h] at hsome
    cases hsome

end Looking

/-! ## Steps of a walk -/

namespace LazyWalk

section
variable (I : Includer (StateM σ)) (nested : Bool) (v : Value)

/-- The points of a walk of `v`: where a step ends, and where one looks at the next place. -/
inductive Point : LazyWalk → Prop
  | start : Point (ofRoot v)
  | looks {root p p'} (h : Point ⟨root, p, false⟩) (hlook : Looks I.isInclude root p p') :
      Point ⟨root, p', false⟩
  | step {w s w' item s'} (h : Point w) (hnext : (next I nested w).run s = ((w', item), s')) : Point w'

end

variable {I : Includer (StateM σ)} {nested : Bool} {v : Value} {w w' : LazyWalk} {s s' : σ}
  {item : Option (Except Failure ResolvedInclude)} {e : Failure}

/-- The content of an include has distinct keys if the tree has. -/
theorem wellFormed_content (hl : I.KeepsDistinct) {root p c : Value} {l : Location} {t : Tag} {d : Directive}
    (hwf : root.WellFormed) (hat : root.at? l = some (.tagged t p)) (hd : Directive.ofNode p = .ok d)
    (hc : (I.resolve d).Ends s (.ok c) s') : c.WellFormed := by
  have hp : p.WellFormed := (Value.all_parts_tagged t p |>.mp (hwf.at? hat)).2
  exact Includer.resolve_wellFormed hl hp hd s c s' hc

/-- After a step the places stand that did before, and keys are distinct. -/
theorem Turn.stand (hl : I.KeepsDistinct) (h : Turn I nested w s w' item s') (hwf : w.root.WellFormed)
    (hstand : Stand w.root w.pending) : w'.root.WellFormed ∧ Stand w'.root w'.pending := by
  cases h with
  | ended hdone => exact ⟨hwf, hstand⟩
  | nothing hfind => exact ⟨hwf, trivial⟩
  | lost hfind => exact ⟨hwf, trivial⟩
  | fails hfind he => exact ⟨hwf, trivial⟩
  | resolves hfind hd hc =>
    rename_i c
    obtain ⟨hlooks, t, -, hat⟩ := Stand.found hwf hstand hfind
    have hput := (Stand.of_looks hwf hstand hlooks).put c
    refine ⟨hwf.replaceAt (wellFormed_content hl hwf hat hd hc), ?_⟩
    cases nested with
    | true => exact hput
    | false => exact hput.tail

/-- At every point of a walk the places that are still to be visited stand. -/
theorem Point.stand (hl : I.KeepsDistinct) (hwf : v.WellFormed) (h : Point I nested v w) :
    w.root.WellFormed ∧ Stand w.root w.pending := by
  induction h with
  | start => exact ⟨hwf, stand_root v⟩
  | looks _ hlook ih => exact ⟨ih.1, hlook.stand ih.1 ih.2⟩
  | step _ hnext ih => exact (Turn.of_next hnext).stand hl ih.1 ih.2

/-- A step fails as an include of the tree does, and is the last one. -/
theorem Turn.of_error (h : Turn I nested w s w' (some (.error e)) s') (hwf : w.root.WellFormed)
    (hstand : Stand w.root w.pending) :
    w'.done = true ∧ ∃ l t p, w.root.at? l = some (.tagged t p) ∧ I.isInclude t = true ∧
      (I.standIn p).Ends s (.error e) s' := by
  cases h with
  | lost hfind => exact absurd hfind (Stand.not_lost hwf hstand)
  | fails hfind he =>
    obtain ⟨-, t, ht, hat⟩ := Stand.found hwf hstand hfind
    exact ⟨rfl, _, t, _, hat, ht, he⟩

end LazyWalk
end Transclusion
