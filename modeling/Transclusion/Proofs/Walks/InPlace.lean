import Transclusion.Proofs.Runs
import Transclusion.Proofs.Values.Nodes
import Transclusion.Walk.Copy
import Transclusion.Walk.InPlace

/-!
# Copying and walking in place

* `Walked.result` : a walk in place as a result, the tree of a failed walk being given up;
* `replaceIncludes_run` : a copy is the result of replacing in place, if each include is;
* `replaceInPlace_settled`, `replaceIncludes_settled` : neither does anything where no include is;
* `Includer.walk_run` : a walk is the result of a walk in place, in any monad and with all effects.

Both go through a tree in document order. The copy gives up at the first failure; in place all
further nodes stay what they are.
-/

namespace Transclusion

variable {m : Type → Type} {α β : Type}

/-! ## Results -/

def Walked.result (w : Walked α) : Except Failure α :=
  match w.failure with
  | none => .ok w.left
  | some e => .error e

variable [Monad m] [LawfulMonad m]

/-- A run after another is looked at where that one did not fail. -/
theorem Run.run_bind_of_result {r : Run m α} {walked : m (Walked α)}
    (h : r.run = Walked.result <$> walked) (f : α → Run m β) :
    (r >>= f).run = walked >>= fun w =>
      match w.failure with
      | some e => pure (.error e)
      | none => (f w.left).run := by
  rw [ExceptT.run_bind, h, bind_map_left]
  apply bind_congr
  intro w
  rcases w with ⟨left, _ | e⟩ <;> rfl

theorem Run.run_map_of_result {r : Run m α} {walked : m (Walked α)}
    (h : r.run = Walked.result <$> walked) (f : α → β) :
    (do return f (← r) : Run m β).run =
      Walked.result <$> (do return (← walked).map f : m (Walked β)) := by
  rw [run_bind_of_result h, map_bind]
  apply bind_congr
  intro w
  rw [map_pure]
  rcases w with ⟨left, _ | e⟩ <;> rfl

/-! ## Trees -/

section Trees
variable {isInclude : Tag → Bool} {handle : Value → Run m Value}
  {handleAt : Tag → Value → m (Walked Value)}

theorem replaceInItems_run {items : List Value}
    (h : ∀ v ∈ items, (replaceIncludes isInclude handle v).run =
      Walked.result <$> replaceInPlace isInclude handleAt v) :
    (replaceInItems isInclude handle items).run =
      Walked.result <$> replaceItemsInPlace isInclude handleAt items := by
  induction items with
  | nil =>
    rw [replaceInItems, replaceItemsInPlace, map_pure]
    rfl
  | cons v rest ih =>
    have hv := h v List.mem_cons_self
    have hrest := ih fun w hw => h w (List.mem_cons_of_mem v hw)
    rw [replaceInItems, replaceItemsInPlace, Run.run_bind_of_result hv, map_bind]
    apply bind_congr
    intro w
    rcases w with ⟨left, _ | e⟩
    · exact Run.run_map_of_result hrest _
    · rw [map_pure]
      rfl

theorem replaceInEntries_run {es : Entries}
    (h : ∀ e ∈ es, (replaceIncludes isInclude handle e.2).run =
      Walked.result <$> replaceInPlace isInclude handleAt e.2) :
    (replaceInEntries isInclude handle es).run =
      Walked.result <$> replaceEntriesInPlace isInclude handleAt es := by
  induction es with
  | nil =>
    rw [replaceInEntries, replaceEntriesInPlace, map_pure]
    rfl
  | cons e rest ih =>
    have he := h e List.mem_cons_self
    have hrest := ih fun f hf => h f (List.mem_cons_of_mem e hf)
    rw [replaceInEntries, replaceEntriesInPlace, Run.run_bind_of_result he, map_bind]
    apply bind_congr
    intro w
    rcases w with ⟨left, _ | e⟩
    · exact Run.run_map_of_result hrest _
    · rw [map_pure]
      rfl

/-- A copy is the result of replacing in place, if that holds of what is done to each include. -/
theorem replaceIncludes_run
    (h : ∀ t p, isInclude t = true → (handle p).run = Walked.result <$> handleAt t p) (v : Value) :
    (replaceIncludes isInclude handle v).run =
      Walked.result <$> replaceInPlace isInclude handleAt v := by
  induction v using Value.inductionOn with
  | null => exact (map_pure Walked.result ⟨Value.null, none⟩).symm
  | bool b => exact (map_pure Walked.result ⟨Value.bool b, none⟩).symm
  | number n => exact (map_pure Walked.result ⟨Value.number n, none⟩).symm
  | string s => exact (map_pure Walked.result ⟨Value.string s, none⟩).symm
  | sequence items ih =>
    rw [replaceIncludes, replaceInPlace]
    exact Run.run_map_of_result (replaceInItems_run ih) Value.sequence
  | mapping es ih =>
    rw [replaceIncludes, replaceInPlace]
    exact Run.run_map_of_result (replaceInEntries_run fun e he => (ih e he).2) Value.mapping
  | tagged t v ih =>
    rw [replaceIncludes, replaceInPlace]
    by_cases ht : isInclude t = true
    · rw [if_pos ht, if_pos ht]
      exact h t v ht
    · rw [if_neg ht, if_neg ht]
      exact Run.run_map_of_result ih (Value.tagged t)

/-! ### Trees without includes -/

theorem replaceItemsInPlace_settled {items : List Value}
    (h : ∀ v ∈ items, replaceInPlace isInclude handleAt v = pure ⟨v, none⟩) :
    replaceItemsInPlace isInclude handleAt items = pure ⟨items, none⟩ := by
  induction items with
  | nil => rfl
  | cons v rest ih =>
    have hrest := ih fun w hw => h w (List.mem_cons_of_mem v hw)
    rw [replaceItemsInPlace, h v List.mem_cons_self, pure_bind, hrest]
    exact pure_bind _ _

theorem replaceEntriesInPlace_settled {es : Entries}
    (h : ∀ e ∈ es, replaceInPlace isInclude handleAt e.2 = pure ⟨e.2, none⟩) :
    replaceEntriesInPlace isInclude handleAt es = pure ⟨es, none⟩ := by
  induction es with
  | nil => rfl
  | cons e rest ih =>
    have hrest := ih fun f hf => h f (List.mem_cons_of_mem e hf)
    rw [replaceEntriesInPlace, h e List.mem_cons_self, pure_bind, hrest]
    exact pure_bind _ _

theorem replaceInPlace_settled {v : Value} (h : v.Settled isInclude) :
    replaceInPlace isInclude handleAt v = pure ⟨v, none⟩ := by
  unfold Value.Settled at h
  induction v using Value.inductionOn with
  | null => rfl
  | bool b => rfl
  | number n => rfl
  | string s => rfl
  | sequence items ih =>
    have hitems := (Value.all_inner_sequence items |>.mp h).2
    rw [replaceInPlace, replaceItemsInPlace_settled fun v hv => ih v hv (hitems v hv)]
    exact pure_bind _ _
  | mapping es ih =>
    have hes := (Value.all_inner_mapping es |>.mp h).2
    rw [replaceInPlace, replaceEntriesInPlace_settled fun e he => (ih e he).2 (hes e he)]
    exact pure_bind _ _
  | tagged t v ih =>
    obtain ⟨ht, hv⟩ := Value.all_inner_tagged t v |>.mp h
    have htag : isInclude t = false := ht
    rw [replaceInPlace, htag, if_neg Bool.false_ne_true, ih hv]
    exact pure_bind _ _

/-- What replaces an include in a copy, put in its place. After a failure the include stays. -/
def leaving (handle : Value → Run m Value) (t : Tag) (p : Value) : m (Walked Value) := do
  match ← (handle p).run with
  | .ok w => return ⟨w, none⟩
  | .error e => return ⟨.tagged t p, some e⟩

theorem run_eq_leaving (handle : Value → Run m Value) (t : Tag) (p : Value) :
    (handle p).run = Walked.result <$> leaving handle t p := by
  unfold leaving
  rw [map_bind]
  refine (bind_pure (handle p).run).symm.trans ?_
  apply bind_congr
  intro x
  cases x with
  | ok w => exact (map_pure Walked.result ⟨w, none⟩).symm
  | error e => exact (map_pure Walked.result ⟨Value.tagged t p, some e⟩).symm

theorem replaceIncludes_settled {v : Value} (h : v.Settled isInclude) :
    replaceIncludes isInclude handle v = pure v := by
  apply ExceptT.ext
  rw [replaceIncludes_run (fun t p _ => run_eq_leaving handle t p), replaceInPlace_settled h, map_pure]
  rfl

end Trees

/-! ## Walks -/

namespace Includer

theorem walkWithin_run (I : Includer m) (nested : Bool) (levels : Nat) (v : Value) :
    (I.walkWithin nested levels v).run = Walked.result <$> I.walkInPlaceWithin nested levels v := by
  induction levels generalizing v with
  | zero =>
    unfold walkWithin walkInPlaceWithin
    apply replaceIncludes_run
    intro t p _
    rw [ExceptT.run_throw, map_pure]
    rfl
  | succ levels ih =>
    unfold walkWithin walkInPlaceWithin
    apply replaceIncludes_run
    intro t p _
    rw [← bind_assoc, ExceptT.run_bind, map_bind]
    apply bind_congr
    intro x
    cases x with
    | error e =>
      rw [map_pure]
      rfl
    | ok w =>
      cases nested with
      | true => exact ih w
      | false => exact (map_pure Walked.result ⟨w, none⟩).symm

/-- **A walk that copies gives what a walk in place leaves, fails as it fails, and has all of its
effects on the way, in their order.** -/
theorem walk_run (I : Includer m) (nested : Bool) (v : Value) :
    (I.walk nested v).run = Walked.result <$> I.walkInPlace nested v :=
  I.walkWithin_run nested (I.nesting + 1) v

theorem walk_run_missing :
    let second : Value := .tagged includeTag (.string "b")
    let v : Value := .sequence [.tagged includeTag (.mapping
      [(.string "urlpath", .string "a"), (.string "default", .bool true)]), second]
    ((Memory.noting []).walk true v).run = Walked.result <$> (Memory.noting []).walkInPlace true v ∧
      ((Memory.noting []).walkInPlace true v).run [] =
        (⟨.sequence [.bool true, second], some (.fault (.notFound "b"))⟩,
          [.openOne "a" {}, .openOne "b" {}]) :=
  ⟨Includer.walk_run _ _ _, rfl⟩

end Includer
end Transclusion
