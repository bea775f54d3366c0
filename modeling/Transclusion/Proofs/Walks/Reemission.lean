import Transclusion.Proofs.Walks.Deferred
import Transclusion.Yaml.Writing

/-!
# Deferred trees, constructed again

What constructing leaves of an include is a node in the one form that directives are written in.

* `construct_eq_self` : constructing leaves a tree as it is if no include in it changes;
* `Value.Written` : the form in which includes are left;
* `construct_congr_deferred` : what is made of a deferred tree is made of the tree itself;
* `Includer.constructTree_reemitted` : a deferred tree can be written and loaded again.
-/

namespace Transclusion

open Run
open Value (parts)

/-! ## Trees that constructing leaves alone -/

section Constructing
variable {m : Type → Type} [Monad m] [LawfulMonad m]
variable {isIncludeTag : Tag → Bool} {handle : Value → Run m Value}

/-- Constructing leaves a tree as it is if `handle` does so with every include in it. -/
theorem construct_eq_self {v : Value}
    (h : v.All parts fun n => n.HasDistinctKeys ∧
      ∀ t p, n = .tagged t p → isIncludeTag t = true → handle p = pure (.tagged t p)) :
    construct isIncludeTag handle v = pure v := by
  induction v using Value.inductionOn with
  | null => rfl
  | bool b => rfl
  | number n => rfl
  | string s => rfl
  | sequence items ih =>
    have hitems := (Value.all_parts_sequence items |>.mp h).2
    have hall : constructAll isIncludeTag handle items = pure items := by
      clear h
      induction items with
      | nil => rfl
      | cons v rest ihrest =>
        have hv := ih v List.mem_cons_self (hitems v List.mem_cons_self)
        have hrest := ihrest (fun w hw => ih w (List.mem_cons_of_mem v hw))
          fun w hw => hitems w (List.mem_cons_of_mem v hw)
        rw [constructAll, hv, hrest, pure_bind, pure_bind]
    rw [construct, hall, pure_bind]
  | mapping es ih =>
    obtain ⟨hd, hes⟩ := Value.all_parts_mapping es |>.mp h
    have hall : constructEntries isIncludeTag handle es = pure es := by
      clear h hd
      induction es with
      | nil => rfl
      | cons e rest ihrest =>
        have he := hes e List.mem_cons_self
        have hk := (ih e List.mem_cons_self).1 he.1
        have hv := (ih e List.mem_cons_self).2 he.2
        have hrest := ihrest (fun f hf => ih f (List.mem_cons_of_mem e hf))
          fun f hf => hes f (List.mem_cons_of_mem e hf)
        rw [constructEntries, hk, pure_bind, hv, pure_bind, hrest, pure_bind]
    rw [construct, hall, pure_bind, Entries.ofPairs_of_distinct (hd.1 es rfl)]
  | tagged t v ih =>
    obtain ⟨hnode, hv⟩ := Value.all_parts_tagged t v |>.mp h
    rw [construct, ih hv, pure_bind]
    by_cases ht : isIncludeTag t = true
    · rw [if_pos ht]
      exact hnode.2 t v rfl ht
    · rw [if_neg ht]

theorem construct_eq_self_of_free {v : Value} (hwf : v.WellFormed) (hfree : v.FreeOf isIncludeTag) :
    construct isIncludeTag handle v = pure v := by
  refine construct_eq_self fun n hn => ⟨hwf n hn, ?_⟩
  rintro t p rfl ht
  have hnone : isIncludeTag t = false := hfree _ hn
  rw [hnone] at ht
  cases ht

end Constructing

/-! ## The form in which includes are left -/

/-- A node that is an include has the tag that includes are written with, and a payload that the
directive in it is written with. -/
def Value.Written (isIncludeTag : Tag → Bool) (tag : Tag) (n : Value) : Prop :=
  ∀ t p, n = .tagged t p → isIncludeTag t = true →
    t = tag ∧ ∃ d, Directive.ofNode p = .ok d ∧ d.payload = p

/-- Distinct keys, and includes in the form that they are written in, are a rule. -/
theorem NodeRule.written (isIncludeTag : Tag → Bool) (tag : Tag) :
    NodeRule (fun t => isIncludeTag t = false)
      fun n => n.HasDistinctKeys ∧ n.Written isIncludeTag tag where
  null := ⟨NodeRule.distinctKeys.null, nofun⟩
  bool b := ⟨NodeRule.distinctKeys.bool b, nofun⟩
  number n := ⟨NodeRule.distinctKeys.number n, nofun⟩
  string s := ⟨NodeRule.distinctKeys.string s, nofun⟩
  sequence items := ⟨NodeRule.distinctKeys.sequence items, nofun⟩
  mapping es h := ⟨NodeRule.distinctKeys.mapping es h, nofun⟩
  tagged t v h := by
    refine ⟨NodeRule.distinctKeys.tagged t v trivial, ?_⟩
    rintro t' p ⟨⟩ ht
    rw [h] at ht
    cases ht

namespace Includer

variable {σ : Type} {I : Includer (StateM σ)} {resolve : Directive → Run (StateM σ) Value}

theorem handle_written (ha : I.autoload = false) {p : Value}
    (hp : p.All parts fun n => n.HasDistinctKeys ∧ n.Written I.isInclude I.tag) :
    Always (·.All parts fun n => n.HasDistinctKeys ∧ n.Written I.isInclude I.tag)
      (I.handle resolve p) := by
  unfold handle
  refine Always.bind (P := fun d => Directive.ofNode p = .ok d) (Always.ofExcept fun d hd => hd)
    fun d hd => ?_
  rw [ha]
  have hread : Directive.ofNode d.payload = .ok d :=
    Directive.ofNode_payload (Directive.writable_of_ofNode hd (hp p .refl).1)
  have hpayload := Directive.all_payload (NodeRule.written I.isInclude I.tag) (Directive.all_of_ofNode hd hp)
  refine Always.pure (Value.all_parts_tagged I.tag d.payload |>.mpr ⟨⟨nofun, ?_⟩, hpayload⟩)
  rintro t p' ⟨⟩ -
  exact ⟨rfl, d, hread, rfl⟩

/-- An include in the form that it is written in is left as it is. -/
theorem handle_eq_of_written (ha : I.autoload = false) {t : Tag} {p : Value}
    (h : (Value.tagged t p).Written I.isInclude I.tag) (ht : I.isInclude t = true) :
    I.handle resolve p = pure (.tagged t p) := by
  obtain ⟨rfl, d, hd, hpayload⟩ := h t p rfl ht
  unfold handle
  rw [hd, Run.ofExcept, pure_bind, ha, if_neg Bool.false_ne_true, Directive.toNode, hpayload]

/-- Whatever is left of an include, `resolve` is asked for the same directive as before. -/
theorem handle_payload {p : Value} {d : Directive} (hwf : p.WellFormed) (hd : Directive.ofNode p = .ok d) :
    I.handle resolve d.payload = I.handle resolve p := by
  have hread : Directive.ofNode d.payload = .ok d :=
    Directive.ofNode_payload (Directive.writable_of_ofNode hd (hwf p .refl))
  unfold handle
  rw [hread, hd]

end Includer

/-! ## What is made of a deferred tree -/

section Congruence
variable {σ : Type} {isIncludeTag : Tag → Bool} {handle leave : Value → Run (StateM σ) Value}

theorem constructAll_congr {items ws : List Value} {s s' : σ}
    (h : ∀ v ∈ items, ∀ s w s', Returns (construct isIncludeTag leave v) s w s' →
      construct isIncludeTag handle w = construct isIncludeTag handle v)
    (hws : Returns (constructAll isIncludeTag leave items) s ws s') :
    constructAll isIncludeTag handle ws = constructAll isIncludeTag handle items := by
  induction items generalizing ws s s' with
  | nil =>
    obtain ⟨rfl, -⟩ := returns_pure.mp hws
    rfl
  | cons v rest ih =>
    rw [constructAll] at hws
    obtain ⟨w, s₁, hw, hws⟩ := returns_bind.mp hws
    obtain ⟨ws', hws', rfl⟩ := returns_map.mp hws
    rw [constructAll, constructAll, h v List.mem_cons_self s w s₁ hw,
      ih (fun u hu => h u (List.mem_cons_of_mem v hu)) hws']

theorem constructEntries_congr {es fs : Entries} {s s' : σ}
    (hkey : ∀ e ∈ es, construct isIncludeTag leave e.1 = pure e.1)
    (hvalue : ∀ e ∈ es, ∀ s w s', Returns (construct isIncludeTag leave e.2) s w s' →
      construct isIncludeTag handle w = construct isIncludeTag handle e.2)
    (hfs : Returns (constructEntries isIncludeTag leave es) s fs s') :
    fs.map (·.1) = es.map (·.1) ∧
      constructEntries isIncludeTag handle fs = constructEntries isIncludeTag handle es := by
  induction es generalizing fs s s' with
  | nil =>
    obtain ⟨rfl, -⟩ := returns_pure.mp hfs
    exact ⟨rfl, rfl⟩
  | cons e rest ih =>
    rw [constructEntries, hkey e List.mem_cons_self, pure_bind] at hfs
    obtain ⟨w, s₁, hw, hfs⟩ := returns_bind.mp hfs
    obtain ⟨fs', hfs', rfl⟩ := returns_map.mp hfs
    obtain ⟨hkeys, hrest⟩ := ih (fun f hf => hkey f (List.mem_cons_of_mem e hf))
      (fun f hf => hvalue f (List.mem_cons_of_mem e hf)) hfs'
    refine ⟨by rw [List.map_cons, List.map_cons, hkeys], ?_⟩
    rw [constructEntries, constructEntries, hvalue e List.mem_cons_self s w s₁ hw, hrest]

/-- What is made of a deferred tree is made of the tree itself, if that holds of each include. -/
theorem construct_congr_deferred {v : Value} (hwf : v.WellFormed) (hapart : v.Apart isIncludeTag)
    (h : ∀ p : Value, p.WellFormed → p.FreeOf isIncludeTag → ∀ s w s', Returns (leave p) s w s' →
      construct isIncludeTag handle w = handle p) {s s' : σ} {d : Value}
    (hd : Returns (construct isIncludeTag leave v) s d s') :
    construct isIncludeTag handle d = construct isIncludeTag handle v := by
  unfold Value.WellFormed at hwf
  unfold Value.Apart at hapart
  induction v using Value.inductionOn generalizing s s' d with
  | null => obtain ⟨rfl, -⟩ := returns_pure.mp hd; rfl
  | bool b => obtain ⟨rfl, -⟩ := returns_pure.mp hd; rfl
  | number n => obtain ⟨rfl, -⟩ := returns_pure.mp hd; rfl
  | string s => obtain ⟨rfl, -⟩ := returns_pure.mp hd; rfl
  | sequence items ih =>
    have hitems := (Value.all_parts_sequence items |>.mp hwf).2
    have hitems' := (Value.all_parts_sequence items |>.mp hapart).2
    rw [construct] at hd
    obtain ⟨ws, hws, rfl⟩ := returns_map.mp hd
    rw [construct, construct,
      constructAll_congr (fun v hv s w s' => ih v hv (hitems v hv) (hitems' v hv)) hws]
  | mapping es ih =>
    obtain ⟨hdistinct, hes⟩ := Value.all_parts_mapping es |>.mp hwf
    obtain ⟨hkeys, hes'⟩ := Value.all_parts_mapping es |>.mp hapart
    rw [construct] at hd
    obtain ⟨fs, hfs, rfl⟩ := returns_map.mp hd
    have hkey : ∀ e ∈ es, construct isIncludeTag leave e.1 = pure e.1 := fun e he =>
      construct_eq_self_of_free (hes e he).1 (hkeys.1 e.1 (List.mem_map_of_mem he))
    have hvalue : ∀ e ∈ es, ∀ s w s', Returns (construct isIncludeTag leave e.2) s w s' →
        construct isIncludeTag handle w = construct isIncludeTag handle e.2 :=
      fun e he s w s' => (ih e he).2 (hes e he).2 (hes' e he).2
    obtain ⟨hsame, hall⟩ := constructEntries_congr hkey hvalue hfs
    have hfs' : Entries.Distinct fs := (hdistinct es rfl).congr_keys hsame
    rw [Entries.ofPairs_of_distinct hfs', construct, construct, hall]
  | tagged t v ih =>
    have hv := (Value.all_parts_tagged t v |>.mp hwf).2
    obtain ⟨hpayload, hv'⟩ := Value.all_parts_tagged t v |>.mp hapart
    rw [construct] at hd
    by_cases ht : isIncludeTag t = true
    · have hfree : v.FreeOf isIncludeTag := hpayload.2 ht v List.mem_cons_self
      rw [construct_eq_self_of_free hv hfree, pure_bind, if_pos ht] at hd
      rw [h v hv hfree s d s' hd, construct, construct_eq_self_of_free hv hfree, pure_bind, if_pos ht]
    · obtain ⟨w, s₁, hw, hd⟩ := returns_bind.mp hd
      rw [if_neg ht] at hd
      obtain ⟨rfl, -⟩ := returns_pure.mp hd
      rw [construct, construct, ih hv hv' hw]

end Congruence

/-! ## Writing and loading again -/

namespace Includer

variable {σ : Type} {I : Includer (StateM σ)} {resolve : Directive → Run (StateM σ) Value}

/-- An include that was left is handled as it would have been at once. -/
theorem construct_left {p w : Value} {s s' : σ} (hwf : p.WellFormed) (hfree : p.FreeOf I.isInclude)
    (hw : Returns ((I.withAutoload false).handle resolve p) s w s')
    (again : Directive → Run (StateM σ) Value) :
    construct I.isInclude ((I.withAutoload true).handle again) w = (I.withAutoload true).handle again p := by
  obtain ⟨d, s₁, hread, hw⟩ := returns_bind.mp hw
  obtain ⟨hd, rfl⟩ := returns_ofExcept.mp hread
  obtain ⟨rfl, -⟩ := returns_pure.mp hw
  have hown : I.isInclude I.tag = true := Tag.same_refl I.tag
  have hwf' : d.payload.WellFormed :=
    Directive.all_payload NodeRule.distinctKeys (Directive.all_of_ofNode hd hwf)
  have hfree' : d.payload.FreeOf I.isInclude :=
    Directive.all_payload (NodeRule.notInclude I.isInclude) (Directive.all_of_ofNode hd hfree)
  have hconstruct : construct I.isInclude ((I.withAutoload true).handle again) (.tagged I.tag d.payload) =
      (I.withAutoload true).handle again d.payload := by
    rw [construct, construct_eq_self_of_free hwf' hfree', pure_bind, if_pos hown]
  exact hconstruct.trans (handle_payload hwf hd)

/-- **A deferred tree can be written and loaded again.** Leaving the includes of a tree asks for
nothing, and doing it again changes nothing, so that the text of a deferred tree loads as that tree if
it reads back as it. Where no include lies in a key or in another include, the includes that were left
are resolved as they would have been at once: the two runs are the same, with all that they ask for
and whether or not they succeed. -/
theorem constructTree_reemitted {v d : Value} {s s' : σ}
    (h : ((I.withAutoload false).constructTree v).Returns s d s') :
    s' = s ∧ (I.withAutoload false).constructTree d = pure d ∧
      (∀ text, d.toYaml = .ok text → Value.ofYaml text = .ok d →
        (I.withAutoload false).load text = pure d) ∧
      (v.WellFormed → v.Apart I.isInclude →
        (I.withAutoload true).constructTree d = (I.withAutoload true).constructTree v) := by
  have hstill : ((I.withAutoload false).constructTree v).Still :=
    construct_still (fun p => handle_still (I := I.withAutoload false) rfl (I.withAutoload false).resolve p) v
  have hwritten : d.All parts fun n => n.HasDistinctKeys ∧ n.Written I.isInclude I.tag :=
    construct_always (NodeRule.written I.isInclude I.tag) (fun _ ht => ht)
      (fun _ hp => handle_written (I := I.withAutoload false) rfl hp) v s d s' h
  have hagain : (I.withAutoload false).constructTree d = pure d := by
    refine construct_eq_self fun n hn => ⟨(hwritten n hn).1, ?_⟩
    rintro t p rfl ht
    exact handle_eq_of_written (I := I.withAutoload false) rfl (hwritten _ hn).2 ht
  refine ⟨(hstill.returns h).1.symm, hagain, fun text _ hread => ?_, fun hwf hapart => ?_⟩
  · unfold load loadWith
    rw [hread, ofYaml, pure_bind]
    exact hagain
  · exact construct_congr_deferred hwf hapart (fun p hp hfree s w s' hw =>
      construct_left hp hfree hw (I.withAutoload true).resolve) h

def numberAndOther : Value :=
  .sequence [
    .tagged includeTag (.mapping [(.string "target", .ofNat 1)]),
    .tagged ⟨"other"⟩ (.tagged ⟨"!inc"⟩ (.sequence [.string "b", .ofNat 2]))]

def numberAndOtherLeft : Value :=
  .sequence [
    .tagged includeTag (.string "1"),
    .tagged ⟨"other"⟩ (.tagged includeTag (.sequence [.string "b", .ofNat 2]))]

theorem constructTree_reemitted_number :
    (((Memory.noting [("b", "")]).withAutoload false).constructTree numberAndOther).Returns []
        numberAndOtherLeft [] ∧
      numberAndOther.WellFormed ∧ numberAndOther.Apart (Memory.noting [("b", "")]).isInclude ∧
      ((Memory.noting [("b", "")]).withAutoload false).constructTree numberAndOtherLeft =
        pure numberAndOtherLeft ∧
      ((Memory.noting [("b", "")]).withAutoload true).constructTree numberAndOtherLeft =
        ((Memory.noting [("b", "")]).withAutoload true).constructTree numberAndOther := by
  have hleft : (((Memory.noting [("b", "")]).withAutoload false).constructTree numberAndOther).Returns []
      numberAndOtherLeft [] := by
    rfl
  have hwf : numberAndOther.WellFormed := by
    have hd : Entries.Distinct [(.string "target", .number (.int 1))] := List.pairwise_singleton _ _
    unfold Value.WellFormed
    simp [numberAndOther, Value.HasDistinctKeys, hd, Value.ofNat]
  have hother : (Memory.noting [("b", "")]).isInclude ⟨"other"⟩ = false := by decide
  have hapart : numberAndOther.Apart (Memory.noting [("b", "")]).isInclude := by
    unfold Value.Apart
    simp [numberAndOther, Value.keys, Value.parts, Value.isInclude, Value.FreeOf, hother, Value.ofNat]
  obtain ⟨-, hagain, -, hsame⟩ := constructTree_reemitted hleft
  exact ⟨hleft, hwf, hapart, hagain, hsame hwf hapart⟩

end Includer
end Transclusion
