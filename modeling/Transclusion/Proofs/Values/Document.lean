import Transclusion.Proofs.Values.Equality
import Transclusion.Proofs.Values.Reading

/-!
# Nodes of a document text

* `NodeRule.ofYaml` : what a document text gives follows every rule that keeps all tags;
* `Value.wellFormed_of_ofYaml` : it has distinct keys throughout;
* `Value.ofYaml_eq_ok` : what one text gives can be tried;
* `Value.ofYaml_include` : the text of one include.
-/

namespace Transclusion

open Value (parts)

/-! ## Composing a value -/

def Yaml.Compose.Always {α : Type} (P : α → Prop) (c : Yaml.Compose α) : Prop :=
  ∀ n a n', c.run n = .ok (a, n') → P a

namespace Yaml.Compose

variable {α β : Type} {P : α → Prop} {R : β → Prop}

theorem Always.pure {a : α} (h : P a) : Always P (pure a) := by
  rintro n a' n' ⟨⟩
  exact h

theorem Always.bind {c : Compose α} {f : α → Compose β} (hc : Always P c)
    (hf : ∀ a, P a → Always R (f a)) : Always R (c >>= f) := by
  intro n b n' h
  rw [StateT.run_bind] at h
  cases hr : c.run n with
  | error e =>
    rw [hr] at h
    cases h
  | ok p =>
    rw [hr] at h
    exact hf p.1 (hc n p.1 p.2 hr) p.2 b n' h

theorem Always.bind_any {c : Compose α} {f : α → Compose β} (hf : ∀ a, Always R (f a)) :
    Always R (c >>= f) :=
  Always.bind (P := fun _ => True) (fun _ _ _ _ => trivial) fun a _ => hf a

theorem Always.throw (e : YamlFault) : Always P (throw e : Compose α) := nofun

theorem Always.lift {x : Except YamlFault α} (h : ∀ a, x = .ok a → P a) :
    Always P (liftM x : Compose α) := by
  intro n a n' hr
  cases x with
  | error e => cases hr
  | ok a' =>
    cases hr
    exact h a rfl

theorem Always.mapM {f : β → Compose α} (hf : ∀ b, Always P (f b)) (l : List β) :
    Always (fun as => ∀ a ∈ as, P a) (l.mapM f) := by
  induction l with
  | nil =>
    rw [List.mapM_nil]
    exact Always.pure (by simp)
  | cons b rest ih =>
    rw [List.mapM_cons]
    refine (hf b).bind fun a ha => ih.bind fun as has => Always.pure ?_
    exact List.forall_mem_cons.mpr ⟨ha, has⟩

theorem Always.of_run' {c : Compose α} (hc : Always P c) {n : Nat} {a : α} (h : c.run' n = .ok a) :
    P a := by
  unfold StateT.run' at h
  cases hr : c n with
  | error e =>
    rw [hr] at h
    cases h
  | ok p =>
    rw [hr] at h
    cases h
    exact hc n p.1 p.2 hr

end Yaml.Compose

namespace NodeRule

open Yaml Yaml.Compose

variable {Q : Value → Prop} (hQ : NodeRule (fun _ => True) Q)
include hQ

theorem yaml_plain {text : String} {v : Value} (h : Yaml.ofPlain text = .ok v) : v.All parts Q := by
  unfold Yaml.ofPlain at h
  split at h
  · cases h
    exact Value.all_parts_null.mpr hQ.null
  · split at h
    · cases h
      exact Value.all_parts_bool _ |>.mpr (hQ.bool _)
    · split at h
      · cases h
        exact Value.all_parts_number _ |>.mpr (hQ.number _)
      · cases h
      · split at h
        · cases h
          exact hQ.all_string text
        · split at h
          · cases h
            exact Value.all_parts_number _ |>.mpr (hQ.number _)
          · cases h
            exact hQ.all_string text

theorem yaml_untagged {style : Style} {text : String} {v : Value}
    (h : untaggedScalar style text = .ok v) : v.All parts Q := by
  unfold untaggedScalar at h
  split at h
  · exact hQ.yaml_plain h
  · cases h
    exact hQ.all_string text

theorem all_tagged {v : Value} (h : v.All parts Q) (t : Tag) : (Value.tagged t v).All parts Q :=
  Value.all_parts_tagged t v |>.mpr ⟨hQ.tagged t v trivial, h⟩

theorem yaml_scalar {tag : Option String} {style : Style} {text : String} {v : Value}
    (h : scalarValue tag style text = .ok v) : v.All parts Q := by
  unfold scalarValue at h
  split at h
  · rename_i t _
    cases hu : untaggedScalar style text with
    | error e =>
      rw [hu] at h
      cases h
    | ok w =>
      rw [hu] at h
      cases h
      exact hQ.all_tagged (hQ.yaml_untagged hu) t
  · split at h
    · exact hQ.yaml_untagged h
    · split at h
      · split at h
        · cases h
          exact Value.all_parts_bool _ |>.mpr (hQ.bool _)
        · cases h
      · split at h
        · split at h
          · cases h
            exact Value.all_parts_number _ |>.mpr (hQ.number _)
          · cases h
        · split at h
          · split at h
            · cases h
              exact Value.all_parts_number _ |>.mpr (hQ.number _)
            · cases h
          · split at h
            · split at h
              · cases h
                exact Value.all_parts_null.mpr hQ.null
              · cases h
            · cases h
              exact hQ.all_string text

theorem yaml_item (tree : Tree) {collect : Node → Compose Value}
    (hc : ∀ n, Always (·.All parts Q) (collect n)) (n : Node) :
    Always (·.All parts Q) (item tree collect n) := by
  unfold item
  split
  · exact Always.lift fun v hv => hQ.yaml_scalar hv
  · refine Always.bind_any fun left => ?_
    split
    · exact Always.throw _
    · refine Always.bind_any fun _ => ?_
      split
      · exact Always.lift fun v hv => hQ.yaml_scalar hv
      · exact hc _
      · exact Always.throw _
  · exact hc _

omit hQ in
theorem yaml_entries {read : Node → Compose Value} (hr : ∀ n, Always (·.All parts Q) (read n))
    (rest : List (Node × Node)) {es : Entries} (hd : Entries.Distinct es)
    (hes : ∀ e ∈ es, e.1.All parts Q ∧ e.2.All parts Q) :
    Always (fun fs => Entries.Distinct fs ∧ ∀ e ∈ fs, e.1.All parts Q ∧ e.2.All parts Q)
      (addEntries read es rest) := by
  induction rest generalizing es with
  | nil => exact Always.pure ⟨hd, hes⟩
  | cons entry rest ih =>
    unfold addEntries
    refine (hr entry.1).bind fun key hkey => ?_
    split
    · exact Always.bind (P := fun _ => False) (Always.throw _) fun _ h => h.elim
    · rename_i hnew
      refine (hr entry.2).bind fun value hvalue => ?_
      exact ih (Entries.distinct_concat.mpr ⟨hd, Bool.eq_false_iff.mpr hnew⟩)
        (List.forall_mem_append.mpr ⟨hes, List.forall_mem_singleton.mpr ⟨hkey, hvalue⟩⟩)

theorem yaml_collection (tree : Tree) (left : Nat) (n : Node) :
    Always (·.All parts Q) (collection tree left n) := by
  induction left generalizing n with
  | zero => exact Always.throw _
  | succ left ih =>
    have hitem := hQ.yaml_item tree ih
    unfold collection
    split
    · refine (Always.mapM hitem _).bind fun vs hvs => Always.pure ?_
      have hv := hQ.all_sequence hvs
      dsimp only
      split
      · exact hQ.all_tagged hv _
      · exact hv
    · refine (yaml_entries hitem _ Entries.distinct_nil (by simp)).bind fun es hes => Always.pure ?_
      have hv := hQ.all_mapping hes.1 hes.2
      dsimp only
      split
      · exact hQ.all_tagged hv _
      · exact hv
    · exact hQ.yaml_item tree (fun _ => Always.throw _) _

theorem ofYaml {text : String} {v : Value} (h : Value.ofYaml text = .ok v) : v.All parts Q := by
  unfold Value.ofYaml at h
  cases ht : Token.ofText text with
  | error e =>
    rw [ht] at h
    cases h
  | ok tokens =>
    rw [ht] at h
    cases htree : Tree.ofTokens tokens with
    | error e =>
      simp [bind, Except.bind, htree] at h
    | ok tree =>
      simp only [bind, Except.bind, htree] at h
      cases tree with
      | none =>
        cases h
        exact Value.all_parts_null.mpr hQ.null
      | some tree =>
        exact (hQ.yaml_item tree (hQ.yaml_collection tree maxDepth) tree.root).of_run' h

end NodeRule

/-- The keys of a mapping in a document text are distinct. -/
theorem Value.wellFormed_of_ofYaml {text : String} {v : Value} (h : ofYaml text = .ok v) :
    v.WellFormed :=
  NodeRule.distinctKeys.ofYaml h

theorem Value.ofYaml_eq_ok {text : String} {v : Value} (h : (ofYaml text).toOption = some v) :
    ofYaml text = .ok v := by
  cases hread : ofYaml text with
  | error e =>
    rw [hread] at h
    cases h
  | ok w =>
    rw [hread] at h
    cases h
    rfl

/-- The document text of a single include. -/
theorem Value.ofYaml_include : ofYaml "!inc a" = .ok (.tagged ⟨"inc"⟩ (.string "a")) :=
  ofYaml_eq_ok (by decide +kernel)

end Transclusion
