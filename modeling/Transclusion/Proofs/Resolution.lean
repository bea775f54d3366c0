import Transclusion.Format.Table
import Transclusion.Proofs.Directives.Payload
import Transclusion.Proofs.Runs
import Transclusion.Proofs.Values.Document

/-!
# Nodes of what is resolved

* `Loader.Keeps Q` : a loader gives values that follow `Q` as long as what parses document texts does;
* `Includer.Follows` : a rule for nodes that an includer's own doing never breaks;
* `Includer.Follows.resolve`, `Includer.Follows.load` : whatever is resolved or loaded follows it;
* `Includer.follows_notInclude` : with `autoload`, to be no include is such a rule;
* `Includer.follows_distinctKeys` : distinct keys are one in any case.

A loader may be any function. The ones that are looked at here are none at all and a `FormatTable`.
-/

namespace Transclusion

open Run
open Value (parts)

variable {σ : Type} {kept : Tag → Prop} {Q : Value → Prop}

/-! ## Trees -/

section Trees
variable {isIncludeTag : Tag → Bool} {handle : Value → Run (StateM σ) Value}

/-- What is constructed follows a rule that keeps all other tags, if what `handle` gives does. -/
theorem construct_always (hQ : NodeRule kept Q) (hkept : ∀ t, isIncludeTag t = false → kept t)
    (hhandle : ∀ p, p.All parts Q → Always (·.All parts Q) (handle p)) (v : Value) :
    Always (·.All parts Q) (construct isIncludeTag handle v) := by
  induction v using Value.inductionOn with
  | null => exact Always.pure (Value.all_parts_null.mpr hQ.null)
  | bool b => exact Always.pure (Value.all_parts_bool b |>.mpr (hQ.bool b))
  | number n => exact Always.pure (Value.all_parts_number n |>.mpr (hQ.number n))
  | string s => exact Always.pure (hQ.all_string s)
  | sequence items ih =>
    rw [construct]
    refine Always.bind (P := fun ws => ∀ w ∈ ws, w.All parts Q) ?_ fun ws hws =>
      Always.pure (hQ.all_sequence hws)
    induction items with
    | nil => exact Always.pure (by simp)
    | cons v rest ihrest =>
      rw [constructAll]
      refine (ih v List.mem_cons_self).bind fun w hw => ?_
      refine (ihrest fun u hu => ih u (List.mem_cons_of_mem v hu)).bind fun ws hws => ?_
      exact Always.pure (List.forall_mem_cons.mpr ⟨hw, hws⟩)
  | mapping es ih =>
    rw [construct]
    refine Always.bind (P := fun fs => ∀ e ∈ fs, e.1.All parts Q ∧ e.2.All parts Q) ?_ fun fs hfs =>
      Always.pure (hQ.all_ofPairs hfs)
    induction es with
    | nil => exact Always.pure (by simp)
    | cons e rest ihrest =>
      rw [constructEntries]
      have he := ih e List.mem_cons_self
      refine he.1.bind fun k hk => he.2.bind fun w hw => ?_
      refine (ihrest fun f hf => ih f (List.mem_cons_of_mem e hf)).bind fun fs hfs => ?_
      exact Always.pure (List.forall_mem_cons.mpr ⟨⟨hk, hw⟩, hfs⟩)
  | tagged t v ih =>
    rw [construct]
    refine ih.bind fun w hw => ?_
    split
    · exact hhandle w hw
    · rename_i ht
      have hkeep := hkept t (Bool.eq_false_iff.mpr ht)
      exact Always.pure (Value.all_parts_tagged t w |>.mpr ⟨hQ.tagged t w hkeep, hw⟩)

end Trees

/-! ## Loaders -/

/-- The loader gives values that follow `Q` as long as what parses document texts does. -/
def Loader.Keeps (Q : Value → Prop) (load : Loader (StateM σ)) : Prop :=
  ∀ parseText : String → String → Run (StateM σ) Value,
    (∀ path text, Always (·.All parts Q) (parseText path text)) →
    ∀ path c, Always (·.All parts Q) (load parseText path c)

theorem Format.orFault_always {x : Option Value} (h : ∀ v, x = some v → v.All parts Q) (path : String)
    (cause : ParseFault) : Always (σ := σ) (·.All parts Q) (Run.ofExcept (orFault path cause x)) := by
  apply Always.ofExcept
  intro v hv
  cases x with
  | none => cases hv
  | some w =>
    cases hv
    exact h _ rfl

theorem Format.parse_always (hQ : NodeRule kept Q) (f : Format)
    {parseText : String → String → Run (StateM σ) Value}
    (hparse : ∀ path text, Always (·.All parts Q) (parseText path text)) (path text : String) :
    Always (·.All parts Q) (f.parse parseText path text) := by
  unfold Format.parse
  cases f with
  | yaml => exact hparse path text
  | json => exact orFault_always (fun _ hv => hQ.ofJson hv) path .json
  | toml => exact orFault_always (fun _ hv => hQ.ofToml hv) path .toml
  | ini =>
    dsimp only
    split
    · rename_i heq
      exact Always.pure (hQ.ofIni heq)
    · exact Always.raise _
  | plain => exact Always.pure (hQ.all_string text)

/-- Reading by file name keeps every rule: only document texts know tags. -/
theorem FormatTable.loader_keeps (hQ : NodeRule kept Q) {E : Regex.Engine} (t : FormatTable E) :
    Loader.Keeps (σ := σ) Q t.loader := by
  intro parseText hparse path c
  unfold FormatTable.loader
  split
  · exact Always.raise _
  · exact Always.bind_any fun text => Format.parse_always hQ _ hparse path text

/-! ## Includers -/

namespace Includer

variable {I : Includer (StateM σ)}

/-- A rule for nodes that holds under all other tags, under the includer's own where it leaves
includes as they are, and of whatever the includer's loader gives. -/
structure Follows (I : Includer (StateM σ)) (kept : Tag → Prop) (Q : Value → Prop) : Prop where
  rule : NodeRule kept Q
  others : ∀ t, I.isInclude t = false → kept t
  own : I.autoload = true ∨ kept I.tag
  loader : ∀ load, I.loader = some load → load.Keeps Q

/-- The loaders that come with the library. -/
def HasOwnLoader (I : Includer (StateM σ)) : Prop :=
  I.loader = none ∨ ∃ (E : Regex.Engine) (t : FormatTable E), I.loader = some t.loader

theorem HasOwnLoader.keeps (h : I.HasOwnLoader) (hQ : NodeRule kept Q) :
    ∀ load, I.loader = some load → load.Keeps Q := by
  intro load hload
  rcases h with h | ⟨E, t, h⟩
  · rw [h] at hload
    cases hload
  · rw [h] at hload
    cases hload
    exact FormatTable.loader_keeps hQ t

theorem follows_notInclude (ha : I.autoload = true) (hl : I.HasOwnLoader) :
    I.Follows (fun t => I.isInclude t = false) fun n => n.isInclude I.isInclude = false where
  rule := NodeRule.notInclude I.isInclude
  others _ h := h
  own := .inl ha
  loader := hl.keeps (NodeRule.notInclude I.isInclude)

def KeepsDistinct (I : Includer (StateM σ)) : Prop :=
  ∀ load, I.loader = some load → load.Keeps Value.HasDistinctKeys

theorem HasOwnLoader.keepsDistinct (h : I.HasOwnLoader) : I.KeepsDistinct := h.keeps NodeRule.distinctKeys

theorem follows_distinctKeys (hl : I.KeepsDistinct) :
    I.Follows (fun _ => True) Value.HasDistinctKeys where
  rule := NodeRule.distinctKeys
  others _ _ := trivial
  own := .inr trivial
  loader := hl

namespace Follows

variable {parse : String → Content → Run (StateM σ) Value} {d : Directive}

/-! ### Texts and contents -/

section Texts
variable {resolve : Directive → Run (StateM σ) Value}
variable (h : I.Follows kept Q) (hr : ∀ d, d.All Q → Always (·.All parts Q) (resolve d))
include h hr

theorem handle {p : Value} (hp : p.All parts Q) : Always (·.All parts Q) (I.handle resolve p) := by
  unfold Includer.handle
  refine Always.bind (P := fun d => d.All Q) (Always.ofExcept fun d hd => Directive.all_of_ofNode hd hp)
    fun d hd => ?_
  split
  · exact hr d hd
  · rename_i ha
    have hkeep : kept I.tag := h.own.resolve_left ha
    exact Always.pure (Value.all_parts_tagged I.tag _ |>.mpr
      ⟨h.rule.tagged I.tag _ hkeep, Directive.all_payload h.rule hd⟩)

theorem constructWith (v : Value) : Always (·.All parts Q) (I.constructWith resolve v) :=
  construct_always h.rule h.others (fun _ hp => h.handle hr hp) v

theorem loadWith (text : String) : Always (·.All parts Q) (I.loadWith resolve text) :=
  Always.bind_any fun v => h.constructWith hr v

theorem parseContentWith (path : String) (c : Content) :
    Always (·.All parts Q) (I.parseContentWith resolve path c) := by
  unfold Includer.parseContentWith
  split
  · rename_i load hload
    exact h.loader load hload _ (fun path text => (h.loadWith hr text).mapFault _) path c
  · exact Always.mapFault _ (Always.bind_any fun text => h.loadWith hr text)

end Texts

/-! ### Directives -/

section Directives
variable (hparse : ∀ path c, Always (·.All parts Q) (parse path c))

theorem pieces (flatten : Bool) (path : String) {v : Value} (hv : v.All parts Q) :
    Always (σ := σ) (fun items => ∀ w ∈ items, w.All parts Q) (Includer.pieces flatten path v) := by
  unfold Includer.pieces
  split
  · split
    · exact Always.pure (Value.all_parts_sequence _ |>.mp hv).2
    · exact Always.raise _
  · exact Always.pure (by simpa using hv)

include hparse

theorem gather {α : Type} (flatten : Bool) (openOne : α → Seek (StateM σ) Opened) (files : List α) :
    Seek.Always (fun items => ∀ w ∈ items, w.All parts Q)
      (Includer.gather flatten parse openOne files) := by
  induction files with
  | nil => exact Seek.Always.pure (by simp)
  | cons a rest ih =>
    rw [Includer.gather]
    refine Seek.Always.bind_any fun file => ?_
    refine (Seek.Always.lift ((hparse file.path file.content).bind fun v hv =>
      pieces flatten file.path hv)).bind fun items hitems => ?_
    exact ih.bind fun others hothers => Seek.Always.pure (List.forall_mem_append.mpr ⟨hitems, hothers⟩)

theorem found (hQ : NodeRule kept Q) (d : Directive) (route : Route) (path : String) :
    Seek.Always (·.All parts Q) (I.found parse d route path) := by
  unfold Includer.found
  cases route with
  | remoteGlob =>
    refine Seek.Always.bind_any fun files => ?_
    exact (gather hparse d.flatten pure files).bind fun vs hvs => Seek.Always.pure (hQ.all_sequence hvs)
  | localGlob =>
    refine Seek.Always.bind_any fun plan => Seek.Always.bind_any fun paths => ?_
    exact (gather hparse d.flatten _ paths).bind fun vs hvs => Seek.Always.pure (hQ.all_sequence hvs)
  | remoteSingle => exact Seek.Always.bind_any fun file => Seek.Always.lift (hparse _ _)
  | localSingle => exact Seek.Always.bind_any fun file => Seek.Always.lift (hparse _ _)

theorem defaultValue (hQ : NodeRule kept Q) (path : String) {v : Value} (hv : v.All parts Q) :
    Always (·.All parts Q) (Includer.defaultValue parse path v) := by
  unfold Includer.defaultValue
  split
  · exact (hparse path _).orElseOn fun _ => Always.pure (hQ.all_string _)
  · exact Always.pure hv

theorem resolveWith (hQ : NodeRule kept Q) (hd : d.All Q) :
    Always (·.All parts Q) (I.resolveWith parse d) := by
  unfold Includer.resolveWith
  refine Always.bind_any fun base => ?_
  refine Always.bind (found hparse hQ d _ _) fun x hx => ?_
  split
  · exact Always.pure (hx _ rfl)
  · split
    · rename_i v hv
      exact defaultValue hparse hQ _ (hd.default v hv)
    · exact Always.raise _

end Directives

/-! ### However deep -/

variable (h : I.Follows kept Q)
include h

theorem resolveAt (left : Nat) (hd : d.All Q) : Always (·.All parts Q) (I.resolveAt left d) := by
  induction left generalizing d with
  | zero => exact Always.throw _
  | succ left ih =>
    exact resolveWith (h.parseContentWith fun d' hd' => ih hd') h.rule hd

/-- Whatever is resolved follows the rule, if the directive does. -/
theorem resolve (hd : d.All Q) : Always (·.All parts Q) (I.resolve d) := h.resolveAt I.nesting hd

theorem load (text : String) : Always (·.All parts Q) (I.load text) :=
  h.loadWith (fun _ hd => h.resolve hd) text

end Follows

/-- What stands for an include has distinct keys if its payload has. -/
theorem resolve_wellFormed (hl : I.KeepsDistinct) {p : Value} (hp : p.WellFormed)
    (hd : Directive.ofNode p = .ok d) : Always Value.WellFormed (I.resolve d) :=
  (follows_distinctKeys hl).resolve (Directive.all_of_ofNode hd hp)

end Includer
end Transclusion
