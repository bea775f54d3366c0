import Transclusion.Proofs.Includes.Calls
import Transclusion.Proofs.Includes.Defaults
import Transclusion.Proofs.Values.Document

/-!
# Sequences of files

* `Adds` : what values add to a sequence, with flattening or without;
* `Assembly` : what a list of files is assembled to, or the first failure;
* `Assembly.gather_ends`, `exists_assembly` : files that can be opened are gathered so, and in no other way;
* `Includer.resolve_assembled` : directives for more than one file are resolved so.

The files of a remote pattern are open before the first of them is read. Those of a listing are opened
one after the other, each after the one before it has been read.
-/

namespace Transclusion

open Run

variable {σ α : Type}

/-! ## What files are assembled to -/

/-- Values are added to a sequence as they are. With flattening they are sequences, and their items are
added. -/
def Adds : (flatten : Bool) → (vs items : List Value) → Prop
  | false, vs, items => items = vs
  | true, vs, items => ∃ itemss : List (List Value), vs = itemss.map .sequence ∧ items = itemss.flatten

def readOpened {m : Type → Type} [Monad m] (openOne : α → Run m Opened)
    (read : String → Content → Run m Value) (a : α) : Run m Value := do
  let file ← openOne a
  read file.path file.content

theorem returns_readOpened {openOne : α → Run (StateM σ) Opened} {read : String → Content → Run (StateM σ) Value}
    {a : α} {file : Opened} {v : Value} {s s' : σ} (hopen : (openOne a).Returns s file s')
    (hread : read file.path file.content = pure v) : (readOpened openOne read a).Returns s v s' := by
  refine returns_bind.mpr ⟨file, s', hopen, ?_⟩
  rw [hread]
  exact returns_pure.mpr ⟨rfl, rfl⟩

section
variable (openOne : α → Run (StateM σ) Opened) (read : String → Content → Run (StateM σ) Value)
  (flatten : Bool) (s : σ) (as : List α)

/-- All files are read and add to the sequence, in their order. Or the first that cannot be read fails as
it does, or else, with flattening, the first that is no sequence is told of; all before it were read and
would have added to the sequence. -/
inductive Assembly : Except Failure Value → σ → Prop
  | all {vs items s'} (h : (as.mapM (readOpened openOne read)).Returns s vs s')
      (hadds : Adds flatten vs items) : Assembly (.ok (.sequence items)) s'
  | unread {before a after vs items s₁ file s₂ e s'} (has : as = before ++ a :: after)
      (hbefore : (before.mapM (readOpened openOne read)).Returns s vs s₁) (hadds : Adds flatten vs items)
      (hopen : (openOne a).Returns s₁ file s₂) (hread : (read file.path file.content).Ends s₂ (.error e) s') :
      Assembly (.error e) s'
  | notSequence {before a after vs items s₁ file s₂ v s'} (hflat : flatten = true)
      (has : as = before ++ a :: after) (hbefore : (before.mapM (readOpened openOne read)).Returns s vs s₁)
      (hadds : Adds flatten vs items) (hopen : (openOne a).Returns s₁ file s₂)
      (hread : (read file.path file.content).Returns s₂ v s') (hv : ∀ items, v ≠ .sequence items) :
      Assembly (.error (.fault (.flattenNotSequence file.path v.kind))) s'

end

/-! ## Gathering -/

section Gathering
variable {openOne : α → Run (StateM σ) Opened} {read : String → Content → Run (StateM σ) Value}
  {flatten : Bool} {s s₁ s₂ s' : σ} {a : α} {as before rest : List α} {file : Opened} {v : Value}
  {vs items : List Value} {x : Except Failure Value}

theorem adds_nil (flatten : Bool) : Adds flatten [] [] := by
  cases flatten with
  | false => rfl
  | true => exact ⟨[], rfl, rfl⟩

theorem adds_cons {items' : List Value} : Adds flatten (v :: vs) items' ↔
    ∃ added items, Adds flatten [v] added ∧ Adds flatten vs items ∧ items' = added ++ items := by
  cases flatten with
  | false =>
    constructor
    · rintro rfl
      exact ⟨[v], vs, rfl, rfl, rfl⟩
    · rintro ⟨added, items, rfl, rfl, rfl⟩
      rfl
  | true =>
    constructor
    · rintro ⟨itemss, hvs, rfl⟩
      obtain ⟨first, itemss, rfl, rfl, rfl⟩ := List.map_eq_cons_iff.mp hvs.symm
      exact ⟨first, itemss.flatten, ⟨[first], rfl, by simp⟩, ⟨itemss, rfl, rfl⟩, rfl⟩
    · rintro ⟨added, items, ⟨itemss₁, hv, rfl⟩, ⟨itemss, rfl, rfl⟩, rfl⟩
      exact ⟨itemss₁ ++ itemss, by rw [List.map_append, ← hv]; rfl, by rw [List.flatten_append]⟩

theorem ends_pieces {added : List Value} (h : Adds flatten [v] added) (path : String) (s : σ) :
    (Includer.pieces flatten path v : Run (StateM σ) (List Value)).Ends s (.ok added) s := by
  cases flatten with
  | false =>
    cases h
    rfl
  | true =>
    obtain ⟨itemss, hv, rfl⟩ := h
    obtain ⟨items, rest, rfl, rfl, hrest⟩ := List.map_eq_cons_iff.mp hv.symm
    obtain rfl := List.map_eq_nil_iff.mp hrest
    rw [List.flatten_cons, List.flatten_nil, List.append_nil]
    rfl

/-- With flattening a file that is no sequence is told of. -/
theorem ends_pieces_error (hread : (read file.path file.content).Returns s v s')
    (hv : ∀ items, v ≠ .sequence items) :
    (do Includer.pieces true file.path (← read file.path file.content) : Run (StateM σ) (List Value)).Ends s
      (.error (.fault (.flattenNotSequence file.path v.kind))) s' := by
  cases v with
  | sequence items => exact absurd rfl (hv items)
  | _ => exact Ends.bind hread (Ends.throw _ _)

theorem gather_append {z : Except Failure (Except Missing (List Value))}
    (hbefore : (before.mapM (readOpened openOne read)).Returns s vs s₁) (hadds : Adds flatten vs items)
    (hrest : (Includer.gather flatten read (fun a => Seek.own (openOne a)) rest).run.Ends s₁ z s') :
    (Includer.gather flatten read (fun a => Seek.own (openOne a)) (before ++ rest)).run.Ends s
      (z.map (Except.map (items ++ ·))) s' := by
  induction before generalizing s vs items with
  | nil =>
    obtain ⟨rfl, rfl⟩ := returns_mapM_nil.mp hbefore
    have hnil : items = [] := by
      cases flatten with
      | false => exact hadds
      | true =>
        obtain ⟨itemss, hvs, rfl⟩ := hadds
        rw [List.map_eq_nil_iff.mp hvs.symm, List.flatten_nil]
    subst hnil
    rcases z with e | q | more <;> exact hrest
  | cons a before ih =>
    obtain ⟨v, s₃, us, hv, hus, rfl⟩ := returns_mapM_cons.mp hbefore
    obtain ⟨file, s₂, hopen, hread⟩ := returns_bind.mp hv
    obtain ⟨added, items, hadded, hitems, rfl⟩ := adds_cons.mp hadds
    have hmore := Seek.ends_map (added ++ ·) (ih hus hitems)
    -- a failure and a missing file stay what they are
    have hassoc : (z.map (Except.map (items ++ ·))).map (Except.map (added ++ ·)) =
        z.map (Except.map (added ++ items ++ ·)) := by
      rcases z with e | q | more
      · rfl
      · rfl
      · simp only [Except.map, List.append_assoc]
    rw [hassoc] at hmore
    have hpieces := Ends.bind hread (ends_pieces hadded file.path s₃)
    rw [List.cons_append, Includer.gather]
    exact Seek.ends_bind (Seek.ends_own hopen) (Seek.ends_bind (Seek.ends_lift hpieces) hmore)

/-- Nothing is opened after a file that adds nothing. -/
theorem gather_stops {e : Failure} (hopen : (openOne a).Returns s file s₁)
    (h : (do Includer.pieces flatten file.path (← read file.path file.content) :
      Run (StateM σ) (List Value)).Ends s₁ (.error e) s') :
    (Includer.gather flatten read (fun a => Seek.own (openOne a)) (a :: rest)).run.Ends s (.error e) s' := by
  rw [Includer.gather]
  exact Seek.ends_bind (Seek.ends_own hopen) (Seek.ends_lift_error h)

theorem Assembly.gather_ends (h : Assembly openOne read flatten s as x s') :
    (do return .sequence (← Includer.gather flatten read (fun a => Seek.own (openOne a)) as) :
      Seek (StateM σ) Value).run.Ends s (x.map .ok) s' := by
  cases h with
  | all hread hadds =>
    have hnone : (Includer.gather flatten read (fun a => Seek.own (openOne a)) []).run.Ends s'
        (.ok (.ok [])) s' := Ends.pure _ _
    have hgather := gather_append hread hadds hnone
    rw [List.append_nil] at hgather
    have hmap := Seek.ends_map Value.sequence hgather
    simp only [Except.map, List.append_nil] at hmap
    exact hmap
  | unread has hbefore hadds hopen hread =>
    subst has
    refine Seek.ends_map Value.sequence (gather_append (z := .error _) hbefore hadds ?_)
    exact gather_stops hopen hread.bind_error
  | notSequence hflat has hbefore hadds hopen hread hv =>
    subst has hflat
    refine Seek.ends_map Value.sequence (gather_append (z := .error _) hbefore hadds ?_)
    exact gather_stops hopen (ends_pieces_error hread hv)

theorem Assembly.cons (h : Assembly openOne read flatten s₁ as x s') {added : List Value}
    (hv : (readOpened openOne read a).Returns s v s₁) (hadded : Adds flatten [v] added) :
    ∃ y, Assembly openOne read flatten s (a :: as) y s' := by
  cases h with
  | all hread hadds =>
    exact ⟨_, .all (returns_mapM_cons.mpr ⟨v, s₁, _, hv, hread, rfl⟩)
      (adds_cons.mpr ⟨added, _, hadded, hadds, rfl⟩)⟩
  | unread has hbefore hadds hopen hread =>
    subst has
    exact ⟨_, .unread rfl (returns_mapM_cons.mpr ⟨v, s₁, _, hv, hbefore, rfl⟩)
      (adds_cons.mpr ⟨added, _, hadded, hadds, rfl⟩) hopen hread⟩
  | notSequence hflat has hbefore hadds hopen hread hnone =>
    subst has
    exact ⟨_, .notSequence hflat rfl (returns_mapM_cons.mpr ⟨v, s₁, _, hv, hbefore, rfl⟩)
      (adds_cons.mpr ⟨added, _, hadded, hadds, rfl⟩) hopen hread hnone⟩

/-- Files that can be opened are assembled to something. -/
theorem exists_assembly (read : String → Content → Run (StateM σ) Value) (flatten : Bool) (s : σ)
    (hopens : ∀ a ∈ as, ∀ t, ∃ file t', (openOne a).Returns t file t') :
    ∃ x s', Assembly openOne read flatten s as x s' := by
  induction as generalizing s with
  | nil => exact ⟨_, s, .all (returns_mapM_nil.mpr ⟨rfl, rfl⟩) (adds_nil flatten)⟩
  | cons a as ih =>
    obtain ⟨file, s₁, hopen⟩ := hopens a List.mem_cons_self s
    obtain ⟨answer, s₂, hread⟩ := exists_ends (read file.path file.content) s₁
    have hnone : ([].mapM (readOpened openOne read)).Returns s [] s := returns_mapM_nil.mpr ⟨rfl, rfl⟩
    rcases answer with e | v
    · exact ⟨_, s₂, .unread (List.nil_append _).symm hnone (adds_nil flatten) hopen hread⟩
    · have hv : (readOpened openOne read a).Returns s v s₂ := returns_bind.mpr ⟨file, s₁, hopen, hread⟩
      obtain ⟨x, s', hrest⟩ := ih s₂ fun b hb => hopens b (List.mem_cons_of_mem a hb)
      -- only with flattening does it matter whether the file holds a sequence
      by_cases hsequence : ∃ items, v = .sequence items
      · obtain ⟨items, rfl⟩ := hsequence
        have hadds : ∃ added, Adds flatten [.sequence items] added := by
          cases flatten with
          | false => exact ⟨_, rfl⟩
          | true => exact ⟨_, [items], rfl, rfl⟩
        obtain ⟨added, hadded⟩ := hadds
        obtain ⟨y, hy⟩ := hrest.cons hv hadded
        exact ⟨y, s', hy⟩
      · rw [not_exists] at hsequence
        cases flatten with
        | false =>
          have hadded : Adds false [v] [v] := rfl
          obtain ⟨y, hy⟩ := hrest.cons hv hadded
          exact ⟨y, s', hy⟩
        | true =>
          exact ⟨_, s₂, .notSequence rfl (List.nil_append _).symm hnone (adds_nil true) hopen hread hsequence⟩

end Gathering

/-! ## Directives -/

namespace Includer

variable {I : Includer (StateM σ)} {d : Directive} {left : Nat} {s s₀ s' : σ} {base : Option String}
  {x : Except Failure Value}

theorem resolve_ends (hn : I.nesting = left + 1) (hbase : (I.currentBase.run s).run = (base, s₀))
    (hfound : (I.found (I.parseContentWith (I.resolveAt left)) d (Target.resolve d.target base).route
      (Target.resolve d.target base).path).run.Ends s₀ (x.map .ok) s') : (I.resolve d).Ends s x s' := by
  rw [resolve, hn, resolveAt, resolveWith, ends_bind_iff (ends_currentBase hbase)]
  cases x with
  | error e => exact hfound.bind_error
  | ok v => exact hfound.bind (Ends.pure v s')

/-- **A directive for several files gives all of them, or the first failure.** Without flattening it gives
the sequence of their values, in the order in which the files are listed; with flattening it gives the
items of these values, in the same order, all of which have to be sequences. It never gives a part of
that. For a single file flattening counts for nothing. -/
theorem resolve_assembled (hn : I.nesting = left + 1) (hbase : (I.currentBase.run s).run = (base, s₀)) :
    ((Target.resolve d.target base).route = .remoteGlob → ∀ files s₁,
      (I.backend.openMatching (Target.resolve d.target base).path d.args).Returns s₀ files s₁ →
      ∀ x s', (I.resolve d).Ends s x s' ↔
        Assembly pure (I.parseContentWith (I.resolveAt left)) d.flatten s₁ files x s') ∧
    ((Target.resolve d.target base).route = .localGlob → ∀ plan paths s₁,
      Plan.ofParams d.positional d.named = .ok plan →
      (I.backend.glob (Target.resolve d.target base).path plan.listing.args).Returns s₀ paths s₁ →
      (∀ path ∈ paths, ∀ t, ∃ file t', (I.backend.openOne path plan.opening.args).Returns t file t') →
      ∀ x s', (I.resolve d).Ends s x s' ↔
        Assembly (fun path => I.backend.openOne path plan.opening.args)
          (I.parseContentWith (I.resolveAt left)) d.flatten s₁ paths x s') ∧
    ((Target.resolve d.target base).route.isMulti = false →
      ∀ flatten x s', (I.resolve { d with flatten := flatten }).Ends s x s' ↔ (I.resolve d).Ends s x s') := by
  refine ⟨fun hroute files s₁ hopen x s' => ?_, fun hroute plan paths s₁ hplan hglob hopens x s' => ?_,
    fun hroute flatten x s' => ?_⟩
  · refine ends_iff_of_exists (fun x s' h => resolve_ends hn hbase ?_) (exists_assembly _ _ _ ?_)
    · rw [hroute, found]
      exact Seek.ends_bind (Seek.ends_own hopen) h.gather_ends
    · -- the files are open already
      exact fun file _ t => ⟨file, t, returns_pure.mpr ⟨rfl, rfl⟩⟩
  · refine ends_iff_of_exists (fun x s' h => resolve_ends hn hbase ?_) (exists_assembly _ _ _ hopens)
    rw [hroute, found, hplan]
    have hlift : (liftM (Run.ofExcept (.ok plan) : Run (StateM σ) Plan) :
        Seek (StateM σ) Plan).run.Ends s₀ (.ok (.ok plan)) s₀ := Seek.ends_lift (Ends.pure _ _)
    exact Seek.ends_bind hlift (Seek.ends_bind (Seek.ends_own hglob) h.gather_ends)
  · have hfound : ∀ read, I.found read { d with flatten := flatten } (Target.resolve d.target base).route
        (Target.resolve d.target base).path = I.found read d (Target.resolve d.target base).route
          (Target.resolve d.target base).path := by
      intro read
      cases hr : (Target.resolve d.target base).route with
      | remoteGlob | localGlob =>
        rw [hr] at hroute
        cases hroute
      | remoteSingle | localSingle => rfl
    have hask := ends_currentBase hbase
    rw [resolve, resolve, hn, resolveAt, resolveAt, resolveWith, resolveWith, ends_bind_iff hask,
      ends_bind_iff hask]
    dsimp only
    rw [hfound]

def allMatching : Directive where
  target := "*"
  target_shows := Eq.refl false

def allOfHost : Directive where
  target := "mem://h/*"
  flatten := true
  target_shows := Eq.refl false

def twoLists : Includer (StateM (List Call)) := Memory.noting [("a", "[]"), ("b", "[~]")]

def listAndNull : Includer (StateM (List Call)) := Memory.noting [("mem://h/a", "[]"), ("mem://h/b", "")]

theorem twoLists_opens : ∀ path ∈ ["a", "b"], ∀ t, ∃ file t', (twoLists.backend.openOne path {}).Returns t file t' := by
  intro path hpath t
  simp only [List.mem_cons, List.not_mem_nil, or_false] at hpath
  rcases hpath with rfl | rfl
  · exact ⟨⟨"a", .ofText "[]"⟩, _, rfl⟩
  · exact ⟨⟨"b", .ofText "[~]"⟩, _, rfl⟩

/-- A text that is constructed to itself is read as its document. -/
theorem parseContentWith_ofText {I : Includer (StateM σ)} (hl : I.loader = none)
    {resolve : Directive → Run (StateM σ) Value} {text : String} {v : Value} (hv : Value.ofYaml text = .ok v)
    (hself : I.constructWith resolve v = pure v) (path : String) :
    I.parseContentWith resolve path (.ofText text) = pure v := by
  have hload : I.loadWith resolve text = pure v := by
    rw [loadWith, hv]
    exact hself
  simp only [parseContentWith, hl, loadContentWith, Content.readAs, Content.text?_ofText, pure_bind, hload]
  rfl

theorem ofYaml_emptyList : Value.ofYaml "[]" = .ok (.sequence []) := Value.ofYaml_eq_ok (by decide +kernel)

theorem ofYaml_nullList : Value.ofYaml "[~]" = .ok (.sequence [.null]) := Value.ofYaml_eq_ok (by decide +kernel)

theorem twoLists_read : (["a", "b"].mapM (readOpened (fun path => twoLists.backend.openOne path {})
    (twoLists.parseContentWith (twoLists.resolveAt 1999)))).Returns [.glob "*" {}]
    [.sequence [], .sequence [.null]] [.glob "*" {}, .openOne "a" {}, .openOne "b" {}] := by
  have hfirst : (readOpened (fun path => twoLists.backend.openOne path {})
      (twoLists.parseContentWith (twoLists.resolveAt 1999)) "a").Returns [.glob "*" {}] (.sequence [])
      [.glob "*" {}, .openOne "a" {}] :=
    returns_readOpened rfl (parseContentWith_ofText rfl ofYaml_emptyList rfl "a")
  have hsecond : (readOpened (fun path => twoLists.backend.openOne path {})
      (twoLists.parseContentWith (twoLists.resolveAt 1999)) "b").Returns [.glob "*" {}, .openOne "a" {}]
      (.sequence [.null]) [.glob "*" {}, .openOne "a" {}, .openOne "b" {}] :=
    returns_readOpened rfl (parseContentWith_ofText rfl ofYaml_nullList rfl "b")
  exact returns_mapM_cons.mpr ⟨_, _, _, hfirst,
    returns_mapM_cons.mpr ⟨_, _, _, hsecond, returns_mapM_nil.mpr ⟨rfl, rfl⟩, rfl⟩, rfl⟩

/-- Two lists of which one is empty, as they are and flattened, and a file of a host that is no list. -/
theorem resolve_assembled_listing :
    (twoLists.nesting = 1999 + 1 ∧ listAndNull.nesting = 1999 + 1) ∧
      (twoLists.resolve allMatching).Ends [] (.ok (.sequence [.sequence [], .sequence [.null]]))
        [.glob "*" {}, .openOne "a" {}, .openOne "b" {}] ∧
      (twoLists.resolve allFlattened).Ends [] (.ok (.sequence [.null]))
        [.glob "*" {}, .openOne "a" {}, .openOne "b" {}] ∧
      (listAndNull.resolve allOfHost).Ends [] (.error (.fault (.flattenNotSequence "mem://h/b" "null")))
        [.openMatching "mem://h/*" {}] := by
  have hn : twoLists.nesting = 1999 + 1 := rfl
  have hn' : listAndNull.nesting = 1999 + 1 := rfl
  have hbase : (twoLists.currentBase.run []).run = (none, []) := rfl
  have hbase' : (listAndNull.currentBase.run []).run = (none, []) := rfl
  have hglob : (twoLists.backend.glob "*" {}).Returns [] ["a", "b"] [.glob "*" {}] :=
    Memory.noting_glob (toOption_eq_some_iff.mp (by decide +kernel)) {} []
  have hpaths : ((Memory.mk [("mem://h/a", "[]"), ("mem://h/b", "")]).paths "mem://h/*").toOption =
      some ["mem://h/a", "mem://h/b"] := by decide +kernel
  have hopen : (listAndNull.backend.openMatching "mem://h/*" {}).Returns []
      [⟨"mem://h/a", .ofText "[]"⟩, ⟨"mem://h/b", .ofText ""⟩] [.openMatching "mem://h/*" {}] :=
    Memory.noting_openMatching (toOption_eq_some_iff.mp hpaths) rfl {} []
  have hfirst : ([⟨"mem://h/a", .ofText "[]"⟩].mapM (readOpened pure
      (listAndNull.parseContentWith (listAndNull.resolveAt 1999)))).Returns [.openMatching "mem://h/*" {}]
      [.sequence []] [.openMatching "mem://h/*" {}] := by
    refine returns_mapM_cons.mpr ⟨_, _, _, returns_readOpened (returns_pure.mpr ⟨rfl, rfl⟩) ?_,
      returns_mapM_nil.mpr ⟨rfl, rfl⟩, rfl⟩
    exact parseContentWith_ofText rfl ofYaml_emptyList rfl "mem://h/a"
  have hsecond : (listAndNull.parseContentWith (listAndNull.resolveAt 1999) "mem://h/b" (.ofText "")).Returns
      [.openMatching "mem://h/*" {}] .null [.openMatching "mem://h/*" {}] := rfl
  have hopened : (pure ⟨"mem://h/b", .ofText ""⟩ : Run (StateM (List Call)) Opened).Returns
      [.openMatching "mem://h/*" {}] ⟨"mem://h/b", .ofText ""⟩ [.openMatching "mem://h/*" {}] :=
    returns_pure.mpr ⟨rfl, rfl⟩
  have hadds : Adds true [.sequence []] [] := ⟨[[]], rfl, rfl⟩
  refine ⟨⟨hn, hn'⟩, ?_, ?_, ?_⟩
  · have hassembled := (resolve_assembled (d := allMatching) hn hbase).2.1 rfl {} _ _ rfl hglob twoLists_opens
    exact (hassembled _ _).mpr (.all twoLists_read rfl)
  · have hassembled := (resolve_assembled (d := allFlattened) hn hbase).2.1 rfl {} _ _ rfl hglob twoLists_opens
    exact (hassembled _ _).mpr (.all twoLists_read ⟨[[], [.null]], rfl, rfl⟩)
  · have hassembled := (resolve_assembled (d := allOfHost) hn' hbase').1 rfl _ _ hopen
    exact (hassembled _ _).mpr (.notSequence rfl rfl hfirst hadds hopened hsecond (by simp))

end Includer
end Transclusion
