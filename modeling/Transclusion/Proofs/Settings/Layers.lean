import Transclusion.Proofs.Results
import Transclusion.Settings.Basic

/-!
# Settings in layers

* `Settings.overlay_assoc`, `Settings.empty_overlay`, `Settings.overlay_empty` : settings form a monoid;
* `Settings.rules_layered` : the rules of the layers, one layer after the other;
* `FormatRule.format?` : the format that a rule by itself gives to a path;
* `Settings.exists_table_of_valid` : the table of valid rules, by what each of them gives;
* `Settings.layers_compose` : layers may be put together in any grouping, and the last rule decides.
-/

namespace Transclusion

namespace Settings

/-! ## Overlays -/

theorem union_assoc (a b c : Std.ExtTreeMap String String) : (a ∪ b) ∪ c = a ∪ (b ∪ c) := by
  refine Std.ExtTreeMap.ext_getElem? fun k => ?_
  rw [Std.ExtTreeMap.getElem?_union, Std.ExtTreeMap.getElem?_union, Std.ExtTreeMap.getElem?_union,
    Std.ExtTreeMap.getElem?_union, Option.or_assoc]

theorem empty_union (a : Std.ExtTreeMap String String) : ∅ ∪ a = a := by
  refine Std.ExtTreeMap.ext_getElem? fun k => ?_
  rw [Std.ExtTreeMap.getElem?_union, Std.ExtTreeMap.getElem?_empty, Option.or_none]

theorem union_empty (a : Std.ExtTreeMap String String) : a ∪ ∅ = a := by
  refine Std.ExtTreeMap.ext_getElem? fun k => ?_
  rw [Std.ExtTreeMap.getElem?_union, Std.ExtTreeMap.getElem?_empty, Option.none_or]

theorem overlay_assoc (a b c : Settings) : (a.overlay b).overlay c = a.overlay (b.overlay c) := by
  simp only [overlay, Option.orElse_eq_orElse, Option.orElse_eq_or, Option.or_assoc, Bool.or_assoc,
    List.append_assoc, union_assoc]

theorem empty_overlay (s : Settings) : overlay {} s = s := by
  simp [overlay, empty_union]

theorem overlay_empty (s : Settings) : s.overlay {} = s := by
  simp [overlay, union_empty]

/-- The rules of all layers, those of the lowest first. -/
theorem rules_layered (layers : List Settings) : (layered layers).rules = layers.flatMap (·.rules) := by
  have hfrom : ∀ s : Settings, (layers.foldl overlay s).rules = s.rules ++ layers.flatMap (·.rules) := by
    induction layers with
    | nil => simp
    | cons l rest ih =>
      intro s
      rw [List.foldl_cons, ih, List.flatMap_cons, overlay, List.append_assoc]
  rw [layered, hfrom]
  rfl

theorem said_layered {α : Type} {g : Settings → Option α} (hempty : g {} = none)
    (hoverlay : ∀ a b : Settings, g (a.overlay b) = (g b).or (g a)) (layers : List Settings) :
    g (layered layers) = layers.reverse.findSome? g := by
  have hfrom : ∀ s : Settings, g (layers.foldl overlay s) = (layers.reverse.findSome? g).or (g s) := by
    induction layers with
    | nil => simp
    | cons l rest ih =>
      intro s
      rw [List.foldl_cons, ih, hoverlay, List.reverse_cons, List.findSome?_append, Option.or_assoc]
      simp
  rw [layered, hfrom, hempty, Option.or_none]

theorem byName_layered (layers : List Settings) : (layered layers).byName = layers.any (·.byName) := by
  have hfrom : ∀ s : Settings, (layers.foldl overlay s).byName = (s.byName || layers.any (·.byName)) := by
    induction layers with
    | nil => simp
    | cons l rest ih =>
      intro s
      rw [List.foldl_cons, ih, overlay, List.any_cons, Bool.or_assoc]
  rw [layered, hfrom]
  rfl

end Settings

/-! ## Rules -/

namespace FormatRule

variable {E : Regex.Engine}

/-- The expression that a rule makes for the start of a path, if the pattern can be used for one. -/
def expression? (r : FormatRule) (E : Regex.Engine) : Option E.Expression :=
  (E.read ("^(?:" ++ r.pattern ++ ")")).toOption

def Valid (r : FormatRule) (E : Regex.Engine) : Prop :=
  (r.expression? E).isSome ∧ ∃ f, Format.ofName r.format = .ok f

/-- The format that a rule by itself gives to a path. -/
def format? (r : FormatRule) (E : Regex.Engine) (path : String) : Option Format :=
  match r.expression? E, Format.ofName r.format with
  | some e, .ok f => if E.finds e path then some f else none
  | _, _ => none

/-- A valid rule comes before what is in the table already. -/
theorem Valid.push {r : FormatRule} (h : r.Valid E) (t : FormatTable E) :
    ∃ t', Settings.pushRule t r = .ok t' ∧ ∀ path, t'.format? path = (r.format? E path).or (t.format? path) := by
  obtain ⟨hpattern, f, hf⟩ := h
  obtain ⟨e, he⟩ := Option.isSome_iff_exists.mp hpattern
  refine ⟨⟨t.rows ++ [(e, f)]⟩, ?_, fun path => ?_⟩
  · unfold Settings.pushRule
    rw [hf]
    exact FormatTable.push_eq_ok_iff.mpr ⟨e, toOption_eq_some_iff.mp he, rfl⟩
  · have hrule : r.format? E path = if E.finds e path then some f else none := by
      simp only [format?, he, hf]
    rw [FormatTable.format?_concat, hrule]
    split <;> simp

end FormatRule

/-! ## Tables -/

namespace Settings

/-- Valid rules are taken one after the other, and the last one that knows a path decides. -/
theorem exists_table_of_valid {E : Regex.Engine} {rules : List FormatRule} (h : ∀ r ∈ rules, r.Valid E)
    (t : FormatTable E) : ∃ t', rules.foldlM pushRule t = .ok t' ∧
      ∀ path, t'.format? path = (rules.reverse.findSome? (·.format? E path)).or (t.format? path) := by
  induction rules generalizing t with
  | nil => exact ⟨t, rfl, fun path => by simp⟩
  | cons r rest ih =>
    obtain ⟨hr, hrest⟩ := List.forall_mem_cons.mp h
    obtain ⟨t₁, hpush, hfirst⟩ := hr.push t
    obtain ⟨t', hfold, hothers⟩ := ih hrest t₁
    refine ⟨t', ?_, fun path => ?_⟩
    · rw [List.foldlM_cons, hpush]
      exact hfold
    · rw [hothers, hfirst, List.reverse_cons, List.findSome?_append, Option.or_assoc]
      simp

/-- **Layers may be put together in any grouping, none changes anything if it says nothing, the last one that says
something is followed, and of all rules that know a path the last one decides, before the standard ones.** -/
theorem layers_compose :
    (∀ a b c : Settings, (a.overlay b).overlay c = a.overlay (b.overlay c)) ∧
    (∀ s : Settings, overlay {} s = s ∧ s.overlay {} = s) ∧
    (∀ layers : List Settings,
      (layered layers).tag = layers.reverse.findSome? (·.tag) ∧
      (layered layers).baseDir = layers.reverse.findSome? (·.baseDir) ∧
      (layered layers).autoload = layers.reverse.findSome? (·.autoload) ∧
      (layered layers).timeout = layers.reverse.findSome? (·.timeout) ∧
      (∀ name : String, (layered layers).headers[name]? = layers.reverse.findSome? (·.headers[name]?)) ∧
      (layered layers).byName = layers.any (·.byName)) ∧
    ∀ (E : Regex.Engine) (layers : List Settings), (∀ s ∈ layers, ∀ r ∈ s.rules, r.Valid E) →
      ∃ t, (layered layers).table E = .ok t ∧ ∀ path, t.format? path =
        ((layers.flatMap (·.rules)).reverse.findSome? (·.format? E path)).or
          ((FormatTable.standard : FormatTable E).format? path) := by
  refine ⟨overlay_assoc, fun s => ⟨empty_overlay s, overlay_empty s⟩, fun layers => ?_, fun E layers hvalid => ?_⟩
  · refine ⟨said_layered rfl ?_ layers, said_layered rfl ?_ layers, said_layered rfl ?_ layers,
      said_layered rfl ?_ layers, fun name =>
        said_layered (g := fun s => s.headers[name]?) Std.ExtTreeMap.getElem?_empty ?_ layers, byName_layered layers⟩
    · exact fun a b => Option.orElse_eq_or
    · exact fun a b => Option.orElse_eq_or
    · exact fun a b => Option.orElse_eq_or
    · exact fun a b => Option.orElse_eq_or
    · exact fun a b => Std.ExtTreeMap.getElem?_union
  · have hall : ∀ r ∈ layers.flatMap (·.rules), r.Valid E := by
      intro r hr
      obtain ⟨s, hs, hmem⟩ := List.mem_flatMap.mp hr
      exact hvalid s hs r hmem
    unfold table
    rw [rules_layered]
    exact exists_table_of_valid hall .standard

def endingLayer : Settings := { rules := [⟨".*\\.conf", "ini"⟩] }

def beginningLayer : Settings := { byName := true, rules := [⟨"a", "Text"⟩] }

theorem layers_compose_two :
    (∀ s ∈ [endingLayer, beginningLayer], ∀ r ∈ s.rules, r.Valid Regex.engine) ∧
    ∃ t, (layered [endingLayer, beginningLayer]).table Regex.engine = .ok t ∧
      t.format? "a.conf" = some .plain ∧ t.format? "b.conf" = some .ini ∧ t.format? "b.yml" = some .yaml := by
  have hini : Text.toLowerAscii "ini" = "ini" := by decide +kernel
  have htext : Text.toLowerAscii "Text" = "text" := by decide +kernel
  have hending : FormatRule.Valid ⟨".*\\.conf", "ini"⟩ Regex.engine :=
    ⟨by decide +kernel, .ini, by simp only [Format.ofName, hini]⟩
  have hbeginning : FormatRule.Valid ⟨"a", "Text"⟩ Regex.engine :=
    ⟨by decide +kernel, .plain, by simp only [Format.ofName, htext]⟩
  have hvalid : ∀ s ∈ [endingLayer, beginningLayer], ∀ r ∈ s.rules, r.Valid Regex.engine := by
    simp [endingLayer, beginningLayer, hending, hbeginning]
  obtain ⟨t, ht, hformat⟩ := layers_compose.2.2.2 Regex.engine _ hvalid
  refine ⟨hvalid, t, ht, ?_, ?_, ?_⟩
  · rw [hformat]
    decide +kernel
  · rw [hformat]
    decide +kernel
  · rw [hformat]
    decide +kernel

end Settings
end Transclusion
