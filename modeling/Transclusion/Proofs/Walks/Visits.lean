import Transclusion.Proofs.Includes.Raised
import Transclusion.Proofs.Walks.Sites

/-!
# What a walk visits

* `ResolvedInclude.IsOf` : a resolved include is the one of a site;
* `LazyWalk.next_visits` : a step of a walk that leaves contents alone takes the first of what remains;
* `LazyWalk.exists_visits` : such a walk visits all that remains, up to the first failure;
* `LazyWalk.Point.of_error` : a step fails as an include does, and no place is ever lost;
* `LazyWalk.ofRoot_visits` : a walk visits the includes of its tree, each one once.
-/

namespace Transclusion

open Run

variable {σ : Type} {I : Includer (StateM σ)} {nested : Bool} {v : Value} {w w' : LazyWalk} {s s' : σ}
  {e : Failure}

/-- The include of a site, read: the item has its place and its directive. -/
def ResolvedInclude.IsOf (site : Location × Value) (item : ResolvedInclude) : Prop :=
  item.location = site.1 ∧ Directive.ofNode site.2 = .ok item.directive

theorem Includer.standIn_faults (hI : I.KeepsPlaces) (p : Value) : (I.standIn p).Faults Fault.OfInclude := by
  refine Faults.bind_any (Faults.ofExcept fun c hc => ?_) fun d => resolve_faults hI d
  exact Fault.admits_ofInclude.directive (Directive.ofDirective_of_ofNode c hc)

namespace LazyWalk

/-- A step of a walk that leaves contents alone: nothing remains, or the first of what remains fails, or
it is resolved and the others remain. -/
theorem next_visits (hl : I.KeepsDistinct) {root : Value} {pending : List Location} (hwf : root.WellFormed)
    (hstand : Stand root pending) (s : σ) :
    (remaining I.isInclude root pending = [] ∧ ∃ w, w.done = true ∧
      (next I false ⟨root, pending, false⟩).run s = ((w, none), s)) ∨
    ∃ site rest, remaining I.isInclude root pending = site :: rest ∧
      ((∃ w e s', w.done = true ∧ (I.standIn site.2).Ends s (.error e) s' ∧
          (next I false ⟨root, pending, false⟩).run s = ((w, some (.error e)), s')) ∨
        ∃ root' pending' item s', ResolvedInclude.IsOf site item ∧
          (next I false ⟨root, pending, false⟩).run s = ((⟨root', pending', false⟩, some (.ok item)), s') ∧
          root'.WellFormed ∧ Stand root' pending' ∧ remaining I.isInclude root' pending' = rest) := by
  obtain ⟨w', item, s', hnext, hturn⟩ := exists_turn I false ⟨root, pending, false⟩ s
  have hkept := hturn.stand hl hwf hstand
  cases hturn with
  | ended hdone => cases hdone
  | nothing hfind => exact .inl ⟨hstand.remaining_eq_nil hwf hfind, _, rfl, hnext⟩
  | lost hfind => exact absurd hfind (hstand.not_lost hwf)
  | fails hfind he =>
    have hremain := hstand.remaining_eq_cons hwf hfind root
    exact .inr ⟨_, _, hremain, .inl ⟨_, _, _, rfl, he, hnext⟩⟩
  | resolves hfind hd hc =>
    rename_i x d c
    have hremain := hstand.remaining_eq_cons hwf hfind c
    exact .inr ⟨_, _, hremain, .inr ⟨_, _, _, _, ⟨rfl, hd⟩, hnext, hkept.1, hkept.2, rfl⟩⟩

/-- A walk that leaves contents alone visits all that remains, or it fails at the first include that
does. The induction is on what remains: each step takes the first of it, and whatever it puts in its
place is not visited. -/
theorem exists_visits (hl : I.KeepsDistinct) {todo : List (Location × Value)} {root : Value}
    {pending : List Location} (hwf : root.WellFormed) (hstand : Stand root pending)
    (htodo : remaining I.isInclude root pending = todo) (s : σ) :
    ∃ w s', w.done = true ∧
      ((∃ oks, List.Forall₂ ResolvedInclude.IsOf todo oks ∧
          Gives I false ⟨root, pending, false⟩ s (oks.map .ok) w s') ∨
        ∃ seen site rest oks e s₁, todo = seen ++ site :: rest ∧
          List.Forall₂ ResolvedInclude.IsOf seen oks ∧ (I.standIn site.2).Ends s₁ (.error e) s' ∧
          Gives I false ⟨root, pending, false⟩ s (oks.map .ok ++ [.error e]) w s') := by
  induction todo generalizing root pending s with
  | nil =>
    rcases next_visits hl hwf hstand s with ⟨-, w, hdone, hnext⟩ | ⟨site, rest, hremain, -⟩
    · exact ⟨w, s, hdone, .inl ⟨[], .nil, .nothing hnext⟩⟩
    · rw [htodo] at hremain
      cases hremain
  | cons site todo ih =>
    rcases next_visits hl hwf hstand s with ⟨hnone, -⟩ | ⟨first, rest, hremain, hstep⟩
    · rw [htodo] at hnone
      cases hnone
    rw [htodo] at hremain
    obtain ⟨rfl, rfl⟩ := List.cons.inj hremain
    -- the walk is over with this site, or it goes on from what its content leaves
    rcases hstep with ⟨w, e, s', hdone, he, hnext⟩ |
      ⟨root', pending', item, s', hof, hnext, hwf', hstand', hrest⟩
    · exact ⟨w, s', hdone, .inr ⟨[], site, todo, [], e, s, rfl, .nil, he,
        .more hnext (.nothing (next_done hdone))⟩⟩
    · obtain ⟨w, s₂, hdone, ⟨oks, hall, hgives⟩ | ⟨seen, failed, more, oks, e, s₁, rfl, hall, he, hgives⟩⟩ :=
        ih hwf' hstand' hrest s'
      · exact ⟨w, s₂, hdone, .inl ⟨item :: oks, .cons hof hall, .more hnext hgives⟩⟩
      · exact ⟨w, s₂, hdone, .inr ⟨site :: seen, failed, more, item :: oks, e, s₁, rfl,
          .cons hof hall, he, .more hnext hgives⟩⟩

/-- A step from any point of a walk fails as an include of the tree does, and is the last one. That a
place of the tree is lost is said by the backend or the loader, or by nobody. -/
theorem Point.of_error (hl : I.KeepsDistinct) (hwf : v.WellFormed) (hw : Point I nested v w)
    (h : (next I nested w).run s = ((w', some (.error e)), s')) :
    (∃ l t p, w.root.at? l = some (.tagged t p) ∧ I.isInclude t = true ∧
        (I.standIn p).Ends s (.error e) s') ∧
      (I.KeepsPlaces → ∀ place, e ≠ .fault (.notMutable place)) ∧
      ∀ s₁, (next I nested w').run s₁ = ((w', none), s₁) := by
  obtain ⟨hroot, hstand⟩ := hw.stand hl hwf
  obtain ⟨hdone, l, t, p, hat, ht, he⟩ := (Turn.of_next h).of_error hroot hstand
  refine ⟨⟨l, t, p, hat, ht, he⟩, fun hI place heq => ?_, fun s₁ => next_done hdone⟩
  subst heq
  exact I.standIn_faults hI p s _ s' he

/-- **A walk never loses its place, and visits the includes of its tree.** At every point of a walk the
places that are still to be visited lead to nodes of the tree, a failure is one of reading or resolving
an include of the tree, and nothing comes after it. A walk that leaves contents alone gives the includes
that are reached through items and values, each one once, in document order, with its place and its
directive; then it gives nothing more. Or it fails at one of them, after those before it. -/
theorem ofRoot_visits (hl : I.KeepsDistinct) (hwf : v.WellFormed) :
    (∀ nested w, Point I nested v w →
      (∀ l ∈ w.pending, ∃ n, w.root.at? l = some n) ∧
      ∀ s e w' s', (next I nested w).run s = ((w', some (.error e)), s') →
        (∃ l t p, w.root.at? l = some (.tagged t p) ∧ I.isInclude t = true ∧
          (I.standIn p).Ends s (.error e) s') ∧
        (I.KeepsPlaces → ∀ place, e ≠ .fault (.notMutable place)) ∧
        ∀ s₁, (next I nested w').run s₁ = ((w', none), s₁)) ∧
    (∀ l p, (l, p) ∈ v.sites I.isInclude .root ↔
      ∃ t, I.isInclude t = true ∧ v.HasAt l (.tagged t p)) ∧
    ((v.sites I.isInclude .root).map (·.1)).Nodup ∧
    ∀ s, ∃ w s', (∀ s₁, (next I false w).run s₁ = ((w, none), s₁)) ∧
      ((∃ oks, List.Forall₂ ResolvedInclude.IsOf (v.sites I.isInclude .root) oks ∧
          Gives I false (ofRoot v) s (oks.map .ok) w s') ∨
        ∃ seen site rest oks e s₁, v.sites I.isInclude .root = seen ++ site :: rest ∧
          List.Forall₂ ResolvedInclude.IsOf seen oks ∧ (I.standIn site.2).Ends s₁ (.error e) s' ∧
          Gives I false (ofRoot v) s (oks.map .ok ++ [.error e]) w s') := by
  refine ⟨fun nested w hw => ⟨?_, ?_⟩, fun l p => Value.mem_sites_iff, Value.nodup_sites hwf, fun s => ?_⟩
  · exact (hw.stand hl hwf).2.at?
  · exact fun s e w' s' h => hw.of_error hl hwf h
  · have htodo : remaining I.isInclude v [.root] = v.sites I.isInclude .root := by
      rw [remaining_cons (n := v) rfl]
      exact List.append_nil _
    obtain ⟨w, s', hdone, hvisits⟩ := exists_visits hl hwf (stand_root v) htodo s
    exact ⟨w, s', fun s₁ => next_done hdone, hvisits⟩

/-- Two includes that are reached, the second of them under a key, and one under another tag. -/
def includesAndOther : Value :=
  let file : Value := .tagged includeTag (.string "a")
  .sequence [file, .tagged ⟨"other"⟩ file, .mapping [(.null, file)]]

def fileA : Directive where
  target := "a"
  target_shows := Eq.refl false

theorem standIn_empty (log : List Call) : ((Memory.noting [("a", "")]).standIn (.string "a")).Ends log
    (.ok .null) (log ++ [.openOne "a" {}]) := by
  have hn : (Memory.noting [("a", "")]).nesting = 1999 + 1 := rfl
  have hfound : ((Memory.noting [("a", "")]).found
      ((Memory.noting [("a", "")]).parseContentWith ((Memory.noting [("a", "")]).resolveAt 1999)) fileA
      (Target.resolve "a" none).route (Target.resolve "a" none).path).run.Ends log (.ok (.ok .null))
      (log ++ [.openOne "a" {}]) := by
    unfold Run.Ends
    rfl
  have hresolved : ((Memory.noting [("a", "")]).resolve fileA).Ends log (.ok .null) (log ++ [.openOne "a" {}]) := by
    rw [Includer.resolve, hn, Includer.resolveAt]
    exact (Ends.lift _ log).bind (hfound.bind (Ends.pure _ _))
  exact returns_bind.mpr ⟨fileA, log, returns_ofExcept.mpr ⟨rfl, rfl⟩, hresolved⟩

/-- The one under another tag is not visited, both others are, and no place is lost. -/
theorem ofRoot_visits_other :
    includesAndOther.sites (Memory.noting [("a", "")]).isInclude .root =
        [(⟨[.index 0]⟩, .string "a"), (⟨[.index 2, .key .null]⟩, .string "a")] ∧
      (∀ s e w s' place, (next (Memory.noting [("a", "")]) true (ofRoot includesAndOther)).run s =
        ((w, some (.error e)), s') → e ≠ .fault (.notMutable place)) ∧
      ∃ first second w s', first.location = ⟨[.index 0]⟩ ∧ second.location = ⟨[.index 2, .key .null]⟩ ∧
        Gives (Memory.noting [("a", "")]) false (ofRoot includesAndOther) [] [.ok first, .ok second] w s' ∧
        ∀ s₁, (next (Memory.noting [("a", "")]) false w).run s₁ = ((w, none), s₁) := by
  have hl : (Memory.noting [("a", "")]).KeepsDistinct := Includer.HasOwnLoader.keepsDistinct (.inl rfl)
  have hwf : includesAndOther.WellFormed := by
    unfold Value.WellFormed
    simp [includesAndOther, Value.HasDistinctKeys, Entries.Distinct]
  have hI : (Memory.noting [("a", "")]).KeepsPlaces :=
    ⟨Memory.noting_raises Fault.admits_ofInclude fun _ _ => trivial, by simp [Memory.noting]⟩
  have hsites : includesAndOther.sites (Memory.noting [("a", "")]).isInclude .root =
      [(⟨[.index 0]⟩, .string "a"), (⟨[.index 2, .key .null]⟩, .string "a")] := rfl
  obtain ⟨hpoints, -, -, hvisits⟩ := ofRoot_visits hl hwf
  refine ⟨hsites, fun s e w s' place h => ((hpoints true _ .start).2 s e w s' h).2.1 hI place, ?_⟩
  obtain ⟨w, s', hdone, ⟨oks, hoks, hgives⟩ | ⟨seen, site, rest, -, e, s₁, hsplit, -, hfails, -⟩⟩ := hvisits []
  · rw [hsites] at hoks
    obtain _ | ⟨hfirst, _ | ⟨hsecond, _ | _⟩⟩ := hoks
    exact ⟨_, _, w, s', hfirst.1, hsecond.1, hgives, hdone⟩
  · -- both includes are of the one file that is there
    have hsite : site.2 = .string "a" := by
      have hmem : site ∈ includesAndOther.sites (Memory.noting [("a", "")]).isInclude .root := by
        rw [hsplit]
        simp
      rw [hsites] at hmem
      simp only [List.mem_cons, List.not_mem_nil, or_false] at hmem
      rcases hmem with rfl | rfl <;> rfl
    rw [hsite] at hfails
    cases ((standIn_empty s₁).unique hfails).1

end LazyWalk
end Transclusion
