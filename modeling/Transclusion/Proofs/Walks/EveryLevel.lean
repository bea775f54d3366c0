import Transclusion.Proofs.Includes.Nesting
import Transclusion.Proofs.Walks.Deferred
import Transclusion.Proofs.Walks.Later

/-!
# Deferring at every level

Without `autoload` an included document comes with its own includes still in it, and a nested walk
resolves these when it comes to them.

* `Includer.States`, `Includer.Reads` : the directives of a text, and the texts that they bring in;
* `Includer.ReadsApart` : in none of these an include lies in a key or in another include;
* `Includer.Deferrable` : what is looked at before a walk comes to it is the same with includes left in;
* `Includer.resolveAt_through` : a directive is resolved within a bound as it is in stages;
* `Includer.load_deferred_walk` : what a text is loaded as, it is left and walked as;
* `Includer.deferred_walk_loses` : a text default and a file to be flattened that are includes.
-/

namespace Transclusion

open Run
open Value (inner parts)

namespace Includer

/-! ## Documents that are read -/

/-- The text states the directive in an include outside of keys. -/
def States (I : Includer Id) (text : String) (d : Directive) : Prop :=
  ∃ v t p, Value.ofYaml text = .ok v ∧ Relation.ReflTransGen (fun a b => b ∈ inner a) v (.tagged t p) ∧
    I.isInclude t = true ∧ Directive.ofNode p = .ok d

/-- The document texts that come with a text: those of files that it includes, the texts that stand
for files that are missing, and all that comes with these. -/
inductive Reads (I : Includer Id) (text : String) : String → Prop
  | self : Reads I text text
  | file {t t' : String} {d : Directive} {file : Opened} (h : Reads I text t) (hd : I.States t d)
      (hopen : I.Opens d file) (htext : file.content.text? = .ok t') : Reads I text t'
  | default {t t' : String} {d : Directive} (h : Reads I text t) (hd : I.States t d)
      (hdefault : d.default = some (.string t')) : Reads I text t'

/-- In no document that comes with a text does an include lie in a key or in another include. -/
def ReadsApart (I : Includer Id) (text : String) : Prop :=
  ∀ t v, I.Reads text t → Value.ofYaml t = .ok v → v.Apart I.isInclude

/-- The includes of a text can be deferred at every level. -/
structure Deferrable (I : Includer Id) (text : String) : Prop where
  apart : I.ReadsApart text
  /-- No file whose items are collected is as a whole an include. -/
  flattened : ∀ t d file t' v, I.Reads text t → I.States t d → d.flatten = true →
    (I.place d).route.isMulti = true → I.Opens d file → file.content.text? = .ok t' →
    Value.ofYaml t' = .ok v → v.isInclude I.isInclude = false
  /-- A text that stands for a missing target is read in the same way with and without its includes
  being resolved, or else not at all. -/
  defaults : ∀ t d t' q v, I.Reads text t → I.States t d → d.default = some (.string t') →
    I.Lacks (I.parseContentWith I.resolve) d (I.place d).path (I.place d).route q →
    (I.withAutoload false).load t' = pure v → ∃ w, I.load t' = pure w

variable {I : Includer Id} {text path : String} {d : Directive}

/-- The payload of an include that is read holds no other, nor does what it states. -/
theorem ReadsApart.all_of_states (h : I.ReadsApart text) {t : String} (ht : I.Reads text t)
    (hd : I.States t d) : d.All fun n => n.isInclude I.isInclude = false := by
  obtain ⟨v, tag, p, hv, hreach, htag, hp⟩ := hd
  have hfree := ((h t v ht hv).inner_includes (Value.wellFormed_of_ofYaml hv) _ hreach tag p rfl htag).2
  exact Directive.all_of_ofNode hp hfree

/-! ## Texts and contents -/

theorem parseContentWith_eq_pure_iff (hl : I.loader = none) {resolve : Directive → Run Id Value}
    {c : Content} {v : Value} :
    I.parseContentWith resolve path c = pure v ↔
      ∃ t, c.text? = .ok t ∧ I.loadWith resolve t = pure v := by
  unfold parseContentWith
  rw [hl]
  dsimp only
  rw [mapFault_eq_pure_iff, loadContentWith, bind_eq_pure_iff]
  unfold Content.readAs
  constructor
  · rintro ⟨t, ht, h⟩
    split at ht
    · rename_i htext
      cases ht
      exact ⟨t, htext, h⟩
    · cases ht
  · rintro ⟨t, ht, h⟩
    refine ⟨t, ?_, h⟩
    rw [ht]

/-- Without `autoload` reading a content asks for nothing, so that it is never cut off. -/
theorem parseContentWith_still (hl : I.loader = none) (ha : I.autoload = false)
    (resolve : Directive → Run Id Value) (c : Content) : (I.parseContentWith resolve path c).Still := by
  have hload : (I.loadContentWith resolve c).Still := by
    refine Still.bind ?_ fun t => Still.bind ?_ fun v =>
      construct_still (fun p => handle_still ha resolve p) v
    · unfold Content.readAs
      split
      · exact Still.pure _
      · exact ⟨.error _, rfl⟩
    · unfold Run.ofYaml
      split
      · exact Still.pure _
      · exact ⟨.error _, rfl⟩
  unfold parseContentWith
  rw [hl]
  dsimp only
  obtain ⟨x, hx⟩ := hload
  rw [hx]
  cases x with
  | ok v => exact Still.pure v
  | error f => exact ⟨.error (f.named path), rfl⟩

theorem isInclude_of_construct {isIncludeTag : Tag → Bool} {handle : Value → Run Id Value} {u v : Value}
    (hu : u.isInclude isIncludeTag = false) (h : construct isIncludeTag handle u = pure v) :
    v.isInclude isIncludeTag = false := by
  cases u with
  | sequence items =>
    rw [construct] at h
    obtain ⟨ws, -, h⟩ := bind_eq_pure_iff.mp h
    cases h
    rfl
  | mapping es =>
    rw [construct] at h
    obtain ⟨fs, -, h⟩ := bind_eq_pure_iff.mp h
    cases h
    rfl
  | tagged t p =>
    have ht : ¬ isIncludeTag t = true := Bool.eq_false_iff.mp hu
    rw [construct] at h
    obtain ⟨w, -, h⟩ := bind_eq_pure_iff.mp h
    rw [if_neg ht] at h
    cases h
    exact hu
  | _ =>
    cases h
    rfl

/-! ## In stages -/

section Stages
variable {left : Nat} (ha : I.autoload = true)
include ha

theorem handle_through {p : Value} (hwf : p.WellFormed)
    (h : ∀ d, Directive.ofNode p = .ok d → Through (I.resolveAt left d) ((I.withAutoload false).resolve d)
      ((I.withAutoload false).walkWithin true left)) :
    Through (I.handle (I.resolveAt left) p)
      ((I.withAutoload false).handle (I.withAutoload false).resolve p)
      ((I.withAutoload false).walkWithin true (left + 1)) := by
  intro w hw
  unfold handle at hw
  rw [ha] at hw
  obtain ⟨d, hd, hw⟩ := bind_eq_pure_iff.mp hw
  replace hd := ofExcept_eq_pure_iff.mp hd
  obtain ⟨v, hv, hvw⟩ := h d hd w hw
  refine ⟨d.toNode I.tag, bind_eq_pure_iff.mpr ⟨d, ofExcept_eq_pure_iff.mpr hd, rfl⟩, ?_⟩
  exact (walkWithin_toNode (I.withAutoload false) true left hwf hd).trans
    (bind_eq_pure_iff.mpr ⟨v, hv, hvw⟩)

theorem loadWith_through (hapart : ∀ v, Value.ofYaml text = .ok v → v.Apart I.isInclude)
    (h : ∀ d, I.States text d → Through (I.resolveAt left d) ((I.withAutoload false).resolve d)
      ((I.withAutoload false).walkWithin true left)) :
    Through (I.loadWith (I.resolveAt left) text) ((I.withAutoload false).load text)
      ((I.withAutoload false).walkWithin true (left + 1)) := by
  unfold load loadWith
  cases hv : Value.ofYaml text with
  | error e =>
    intro w hw
    cases hw
  | ok v =>
    have hwf := Value.wellFormed_of_ofYaml hv
    rw [Run.ofYaml, pure_bind, pure_bind]
    unfold constructWith
    rw [construct_eq_replaceIncludes hwf (hapart v hv)]
    have hdefer : construct (I.withAutoload false).isInclude
        ((I.withAutoload false).handle (I.withAutoload false).resolve) v =
          replaceIncludes I.isInclude ((I.withAutoload false).handle (I.withAutoload false).resolve) v :=
      construct_eq_replaceIncludes hwf (hapart v hv)
    rw [hdefer]
    refine replaceIncludes_staged through_staged fun n hn t p hnode ht => ?_
    subst hnode
    have hp := ((hapart v hv).inner_includes hwf _ hn t p rfl ht).1
    exact handle_through ha hp fun d hd => h d ⟨v, t, p, hv, hn, ht, hd⟩

end Stages

theorem parseContentWith_through (hl : I.loader = none) {left : Nat} (resolve : Directive → Run Id Value)
    {c : Content}
    (h : ∀ t, c.text? = .ok t → Through (I.loadWith (I.resolveAt left) t) ((I.withAutoload false).load t)
      ((I.withAutoload false).walkWithin true (left + 1))) :
    Through (I.parseContentWith (I.resolveAt left) path c)
      ((I.withAutoload false).parseContentWith resolve path c)
      ((I.withAutoload false).walkWithin true (left + 1)) := by
  intro w hw
  obtain ⟨t, htext, hload⟩ := (parseContentWith_eq_pure_iff hl).mp hw
  obtain ⟨v, hv, hvw⟩ := h t htext w hload
  exact ⟨v, (parseContentWith_eq_pure_iff (I := I.withAutoload false) hl).mpr ⟨t, htext, hv⟩, hvw⟩

/-- A text that cannot be parsed when its includes are resolved stands for itself also when they are
left, as long as it cannot be parsed then either. -/
theorem defaultValue_through (hl : I.loader = none) {left : Nat} {t : String}
    (resolve : Directive → Run Id Value)
    (hload : Through (I.loadWith (I.resolveAt left) t) ((I.withAutoload false).load t)
      ((I.withAutoload false).walkWithin true (left + 1)))
    (hagree : ∀ v, (I.withAutoload false).load t = pure v →
      ∀ f, I.parseContentWith (I.resolveAt left) path (.ofText t) ≠ raise f) :
    Through (defaultValue (I.parseContentWith (I.resolveAt left)) path (.string t))
      (defaultValue ((I.withAutoload false).parseContentWith resolve) path (.string t))
      ((I.withAutoload false).walkWithin true (left + 1)) := by
  intro w hw
  have htext := Content.text?_ofText t
  rcases eq_pure_or_eq_throw (I.parseContentWith (I.resolveAt left) path (.ofText t)) with ⟨x, hx⟩ | ⟨e, he⟩
  · rw [defaultValue_of_parsed hx] at hw
    cases hw
    have hparse : Through (I.parseContentWith (I.resolveAt left) path (.ofText t))
        ((I.withAutoload false).parseContentWith resolve path (.ofText t))
        ((I.withAutoload false).walkWithin true (left + 1)) :=
      parseContentWith_through hl resolve fun t' ht' => by
        rw [htext] at ht'
        cases ht'
        exact hload
    obtain ⟨v, hv, hvw⟩ := hparse w hx
    exact ⟨v, defaultValue_of_parsed hv, hvw⟩
  · rw [defaultValue_string, he] at hw
    cases e with
    | fault f =>
      cases hw
      have hstill : ((I.withAutoload false).parseContentWith resolve path (.ofText t)).Still :=
        parseContentWith_still (I := I.withAutoload false) hl rfl resolve _
      obtain ⟨x, hx⟩ := hstill
      cases x with
      | ok v =>
        obtain ⟨t', ht', hv⟩ := (parseContentWith_eq_pure_iff (I := I.withAutoload false) hl).mp hx
        rw [htext] at ht'
        cases ht'
        exact absurd he (hagree v hv f)
      | error g => exact ⟨.string t, defaultValue_of_fault hx, rfl⟩
    | nesting => cases hw
    | timeoutOverflow => cases hw

/-- A directive is resolved within a bound as it is in stages: what it brings in with the includes left
in it, and these by a walk. -/
theorem resolveAt_through (ha : I.autoload = true) (hl : I.loader = none) (h : I.Deferrable text)
    {left : Nat} (hle : left ≤ I.nesting) {t : String} (ht : I.Reads text t) (hd : I.States t d) :
    Through (I.resolveAt left d) ((I.withAutoload false).resolve d)
      ((I.withAutoload false).walkWithin true left) := by
  induction left generalizing t d with
  | zero =>
    intro w hw
    cases hw
  | succ left ih =>
    obtain ⟨n, hn⟩ : ∃ n, I.nesting = n + 1 := ⟨I.nesting - 1, by omega⟩
    have hload : ∀ t', I.Reads text t' → Through (I.loadWith (I.resolveAt left) t')
        ((I.withAutoload false).load t') ((I.withAutoload false).walkWithin true (left + 1)) :=
      fun t' ht' => loadWith_through ha (fun v => h.apart t' v ht') fun d hd => ih (by omega) ht' hd
    have hresolve : (I.withAutoload false).resolve d = I.resolveWith
        ((I.withAutoload false).parseContentWith ((I.withAutoload false).resolveAt n)) d := by
      unfold resolve
      rw [show (I.withAutoload false).nesting = n + 1 from hn]
      rfl
    rw [hresolve]
    refine resolveWith_through (found_through ?_ ?_) ?_
    · -- what a file holds
      intro file hopen
      exact parseContentWith_through hl _ fun t' ht' => hload t' (.file ht hd hopen ht')
    · -- its items, where these are collected
      intro hflatten hmulti file hopen v hv
      obtain ⟨t', ht', hv⟩ := (parseContentWith_eq_pure_iff (I := I.withAutoload false) hl).mp hv
      obtain ⟨u, hu, hv⟩ := bind_eq_pure_iff.mp hv
      cases hread : Value.ofYaml t' with
      | error cause =>
        rw [hread] at hu
        cases hu
      | ok u' =>
        rw [hread] at hu
        cases hu
        have hnone := h.flattened t d file t' u ht hd hflatten hmulti hopen ht' hread
        exact isInclude_of_construct hnone hv
    · -- what stands for it
      intro q v hmissing hdefault
      by_cases htext : ∃ t', v = .string t'
      · obtain ⟨t', rfl⟩ := htext
        refine defaultValue_through hl _ (hload t' (.default ht hd hdefault)) fun v hv f hf => ?_
        have hupto : ∀ d, Upto (I.resolveAt left d) (I.resolve d) := resolveAt_upto hl (by omega)
        have hparse := parseContentWith_upto hupto hl
        have hlacks := found_run_eq_missing_iff.mp ((found_upto hparse d _ _).eq_pure hmissing)
        obtain ⟨w, hw⟩ := h.defaults t d t' q.path v ht hd hdefault hlacks hv
        have hfails := (hparse (I.place d).path (.ofText t')).eq_raise hf
        rw [(parseContentWith_eq_pure_iff hl).mpr ⟨t', Content.text?_ofText t', hw⟩] at hfails
        cases hfails
      · have hbare : ∀ t', v ≠ .string t' := fun t' ht' => htext ⟨t', ht'⟩
        have hfree : v.FreeOf I.isInclude := (h.apart.all_of_states ht hd).default v hdefault
        rw [defaultValue_of_not_text hbare, defaultValue_of_not_text hbare]
        exact Through.pure ((I.withAutoload false).walkWithin_settled true (left + 1) hfree.settled)

/-- **What a text is loaded as, it is also left and then walked as.** The documents that come with the
text are read without their includes, and a nested walk resolves these level by level. -/
theorem load_deferred_walk (ha : I.autoload = true) (hl : I.loader = none) (h : I.Deferrable text)
    {w : Value} (hw : I.load text = pure w) :
    ∃ v, (I.withAutoload false).load text = pure v ∧ (I.withAutoload false).walk true v = pure w :=
  loadWith_through ha (fun v => h.apart text v .self)
    (fun _ hd => resolveAt_through ha hl h (Nat.le_refl _) .self hd) w hw

/-! ## Texts in memory -/

def inMemory (files : List (String × String)) : Includer Id := { backend := Memory.backend ⟨files⟩ }

section Texts
variable {files : List (String × String)} {t : String}

theorem opens_inMemory {file : Opened} (h : (inMemory files).Opens d file) :
    ∃ f ∈ files, file.content = .ofText f.2 := by
  have hfile : ∀ path opened, (Memory.mk files).file path = .ok opened →
      ∃ f ∈ files, opened.content = .ofText f.2 := by
    intro path opened hopened
    obtain ⟨f, hf, rfl⟩ := Memory.file_eq_ok hopened
    exact ⟨f, hf, rfl⟩
  cases h with
  | single hroute hopen => exact hfile _ _ (ofExcept_eq_pure_iff.mp hopen)
  | matching hroute hopen hmem =>
    obtain ⟨paths, -, hall⟩ := exists_of_bind_eq_ok (ofExcept_eq_pure_iff.mp hopen)
    exact forall_mem_of_mapM_eq_ok hfile hall file hmem
  | listed hroute hplan hglob hp hopen => exact hfile _ _ (ofExcept_eq_pure_iff.mp hopen)

theorem Reads.mem {S : List String} (htext : text ∈ S) (hfiles : ∀ f ∈ files, f.2 ∈ S)
    (hdefaults : ∀ t ∈ S, ∀ d t', (inMemory files).States t d → d.default = some (.string t') → t' ∈ S)
    (h : (inMemory files).Reads text t) : t ∈ S := by
  induction h with
  | self => exact htext
  | file h hd hopen ht ih =>
    obtain ⟨f, hf, hcontent⟩ := opens_inMemory hopen
    rw [hcontent, Content.text?_ofText] at ht
    cases ht
    exact hfiles f hf
  | default h hd hdefault ih => exact hdefaults _ ih _ _ hd hdefault

end Texts

theorem ofNode_of_states {t : String} {tag : Tag} {p : Value}
    (hread : Value.ofYaml t = .ok (.tagged tag p)) (hfree : p.FreeOf I.isInclude) (h : I.States t d) :
    Directive.ofNode p = .ok d := by
  obtain ⟨v, tag', p', hv, hreach, htag, hd⟩ := h
  rw [hread] at hv
  cases hv
  rcases Relation.ReflTransGen.cases_head hreach with heq | ⟨n, hn, hrest⟩
  · cases heq
    exact hd
  · cases List.mem_singleton.mp hn
    have hnone : I.isInclude tag' = false := hfree.settled _ hrest
    rw [htag] at hnone
    cases hnone

theorem not_states_of_freeOf {t : String} {v : Value} (hread : Value.ofYaml t = .ok v)
    (hfree : v.FreeOf I.isInclude) : ¬ I.States t d := by
  rintro ⟨v', tag, p, hv, hreach, htag, -⟩
  rw [hread] at hv
  cases hv
  have hnone : I.isInclude tag = false := hfree.settled _ hreach
  rw [htag] at hnone
  cases hnone

/-- An include that is just a target states neither a default nor flattening. -/
theorem bare_of_states {t target : String} {tag : Tag}
    (hread : Value.ofYaml t = .ok (.tagged tag (.string target))) (h : I.States t d) :
    d.flatten = false ∧ d.default = none := by
  have hnode : Directive.ofTarget target = .ok d :=
    ofNode_of_states hread (by simp [Value.FreeOf, Value.isInclude]) h
  exact (Directive.ofTarget_fields hnode).2.2

theorem default_of_states {t : String} {tag : Tag} {es : Entries}
    (hread : Value.ofYaml t = .ok (.tagged tag (.mapping es)))
    (hfree : (Value.mapping es).FreeOf I.isInclude) (h : I.States t d) :
    d.default = Entries.get? Directive.defaultKey es := by
  have hnode : Directive.ofMapping es = .ok d := ofNode_of_states hread hfree h
  exact (Directive.ofMapping_eq_ok hnode).2.2.2.2

theorem ofYaml_second : Value.ofYaml "!inc b" = .ok (.tagged ⟨"inc"⟩ (.string "b")) :=
  Value.ofYaml_eq_ok (by decide +kernel)

def including : Includer Id := inMemory [("a", "!inc b"), ("b", "")]

theorem load_deferred_walk_including :
    including.autoload = true ∧ including.loader = none ∧ including.Deferrable "!inc a" ∧
      including.load "!inc a" = pure .null ∧
      ∃ v, (including.withAutoload false).load "!inc a" = pure v ∧
        (including.withAutoload false).walk true v = pure .null := by
  have ha := Value.ofYaml_include
  have hb := ofYaml_second
  have hempty : Value.ofYaml "" = .ok .null := Value.ofYaml_eq_ok (by decide +kernel)
  have hstates : ∀ t ∈ ["!inc a", "!inc b", ""], ∀ d, including.States t d →
      d.flatten = false ∧ d.default = none := by
    simp only [List.forall_mem_cons]
    refine ⟨fun d => bare_of_states ha, fun d => bare_of_states hb, fun d hd => ?_, by simp⟩
    exact absurd hd (not_states_of_freeOf hempty (by simp [Value.FreeOf, Value.isInclude]))
  have hapart : ∀ t ∈ ["!inc a", "!inc b", ""], ∀ v, Value.ofYaml t = .ok v →
      v.Apart including.isInclude := by
    simp [ha, hb, hempty, Value.Apart, Value.keys, Value.parts, Value.isInclude, Value.FreeOf]
  have hreads : ∀ t, including.Reads "!inc a" t → t ∈ ["!inc a", "!inc b", ""] := by
    refine fun t => Reads.mem (by simp) (by simp) fun t ht d t' hd hdefault => ?_
    rw [(hstates t ht d hd).2] at hdefault
    cases hdefault
  have hdefer : including.Deferrable "!inc a" := by
    refine ⟨fun t v ht => hapart t (hreads t ht) v, ?_, ?_⟩
    · intro t d file t' v ht hd hflatten
      rw [(hstates t (hreads t ht) d hd).1] at hflatten
      cases hflatten
    · intro t d t' q v ht hd hdefault
      rw [(hstates t (hreads t ht) d hd).2] at hdefault
      cases hdefault
  have hload : including.load "!inc a" = pure .null := eq_pure_iff_toOption.mpr (by decide +kernel)
  exact ⟨rfl, rfl, hdefer, hload, load_deferred_walk rfl rfl hdefer hload⟩

/-- A missing file, with an include of another missing file as the text that stands for it. -/
def missingOrMissing : String := "!inc \x7burlpath: a, default: '!inc b'\x7d"

theorem readsApart_missingOrMissing : (inMemory []).ReadsApart missingOrMissing := by
  have hread : Value.ofYaml missingOrMissing = .ok (.tagged ⟨"inc"⟩ (.mapping
      [(.string "urlpath", .string "a"), (.string "default", .string "!inc b")])) :=
    Value.ofYaml_eq_ok (by decide +kernel)
  have hb := ofYaml_second
  have hapart : ∀ t ∈ [missingOrMissing, "!inc b"], ∀ v, Value.ofYaml t = .ok v →
      v.Apart (inMemory []).isInclude := by
    simp [hread, hb, Value.Apart, Value.keys, Value.parts, Value.isInclude, Value.FreeOf]
  intro t v ht
  refine hapart t (Reads.mem (by simp) (by simp) ?_ ht) v
  simp only [List.forall_mem_cons]
  refine ⟨fun d t' hd hdefault => ?_, fun d t' hd hdefault => ?_, by simp⟩
  · rw [default_of_states hread (by simp [Value.FreeOf, Value.isInclude]) hd] at hdefault
    cases hdefault
    simp
  · rw [(bare_of_states hb hd).2] at hdefault
    cases hdefault

def allItems : String := "!inc \x7burlpath: 'l/*', flatten: true\x7d"

/-- A file with items, and one in a directory that includes it. -/
def includedItems : Includer Id := inMemory [("b", "[]"), ("l/a", "!inc b")]

theorem readsApart_allItems : includedItems.ReadsApart allItems := by
  have hread : Value.ofYaml allItems = .ok (.tagged ⟨"inc"⟩ (.mapping
      [(.string "urlpath", .string "l/*"), (.string "flatten", .bool true)])) :=
    Value.ofYaml_eq_ok (by decide +kernel)
  have hitems : Value.ofYaml "[]" = .ok (.sequence []) := Value.ofYaml_eq_ok (by decide +kernel)
  have hb := ofYaml_second
  have hapart : ∀ t ∈ [allItems, "[]", "!inc b"], ∀ v, Value.ofYaml t = .ok v →
      v.Apart includedItems.isInclude := by
    simp [hread, hitems, hb, Value.Apart, Value.keys, Value.parts, Value.isInclude, Value.FreeOf]
  intro t v ht
  refine hapart t (Reads.mem (by simp) (by simp) ?_ ht) v
  simp only [List.forall_mem_cons]
  refine ⟨fun d t' hd hdefault => ?_, fun d t' hd => ?_, fun d t' hd hdefault => ?_, by simp⟩
  · rw [default_of_states hread (by simp [Value.FreeOf, Value.isInclude]) hd] at hdefault
    cases hdefault
  · exact absurd hd (not_states_of_freeOf hitems (by simp [Value.FreeOf, Value.isInclude]))
  · rw [(bare_of_states hb hd).2] at hdefault
    cases hdefault

/-- What is left of a text is one tree, so that nothing is lost only if that one can be walked. -/
theorem not_walked {w d : Value} (hleft : (I.withAutoload false).load text = pure d)
    (hwalk : (Id.run ((I.withAutoload false).walk true d).run).toOption = none) :
    ¬ ∃ v, (I.withAutoload false).load text = pure v ∧ (I.withAutoload false).walk true v = pure w := by
  rintro ⟨v, hv, h⟩
  rw [hleft, pure_inj] at hv
  subst hv
  rw [eq_pure_iff_toOption, hwalk] at h
  cases h

/-- **Deferring loses text defaults that cannot be loaded, and files to be flattened that are includes.**
With its include left in it such a default is a text that can be parsed, and such a file is no sequence
yet. -/
theorem deferred_walk_loses :
    ((inMemory []).ReadsApart missingOrMissing ∧
      (inMemory []).load missingOrMissing = pure (.string "!inc b") ∧
      ¬ ∃ v, ((inMemory []).withAutoload false).load missingOrMissing = pure v ∧
        ((inMemory []).withAutoload false).walk true v = pure (.string "!inc b")) ∧
    (includedItems.ReadsApart allItems ∧ includedItems.load allItems = pure (.sequence []) ∧
      ¬ ∃ v, (includedItems.withAutoload false).load allItems = pure v ∧
        (includedItems.withAutoload false).walk true v = pure (.sequence [])) := by
  have hdefault : (Id.run (((inMemory []).withAutoload false).load missingOrMissing).run).toOption =
      some (.tagged includeTag
        (.mapping [(.string "urlpath", .string "a"), (.string "default", .string "!inc b")])) := by
    decide +kernel
  have hflatten : (Id.run ((includedItems.withAutoload false).load allItems).run).toOption =
      some (.tagged includeTag
        (.mapping [(.string "urlpath", .string "l/*"), (.string "flatten", .bool true)])) := by
    decide +kernel
  constructor
  · refine ⟨readsApart_missingOrMissing, eq_pure_iff_toOption.mpr (by decide +kernel), ?_⟩
    exact not_walked (eq_pure_iff_toOption.mpr hdefault) (by decide +kernel)
  · refine ⟨readsApart_allItems, eq_pure_iff_toOption.mpr (by decide +kernel), ?_⟩
    exact not_walked (eq_pure_iff_toOption.mpr hflatten) (by decide +kernel)

end Includer
end Transclusion
