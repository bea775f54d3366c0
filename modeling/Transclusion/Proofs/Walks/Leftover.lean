import Transclusion.Proofs.Walks.Lazy

/-!
# What a walk in place leaves behind

* `Value.payloads` : the payloads of the includes of a tree, in document order;
* `Value.fill` : the tree with other values in the places of the first of its includes;
* `Leaves` : includes are replaced one after the other, and the first that fails stays with all others;
* `replaceInPlace_leaves` : so does replacing in place;
* `Includer.walkInPlace_leaves` : so does a walk in place that does not go on into contents.
-/

namespace Transclusion

open Run

variable {σ α β γ : Type}

/-! ## The includes of a tree -/

namespace Value

mutual

/-- The payloads of the includes of a tree, in document order. No include is looked for in a key or in
the payload of another one. -/
def payloads (isIncludeTag : Tag → Bool) : Value → List Value
  | .tagged t p => if isIncludeTag t then [p] else payloads isIncludeTag p
  | .sequence items => payloadsOfItems isIncludeTag items
  | .mapping entries => payloadsOfEntries isIncludeTag entries
  | _ => []

def payloadsOfItems (isIncludeTag : Tag → Bool) : List Value → List Value
  | [] => []
  | v :: rest => payloads isIncludeTag v ++ payloadsOfItems isIncludeTag rest

def payloadsOfEntries (isIncludeTag : Tag → Bool) : Entries → List Value
  | [] => []
  | (_, v) :: rest => payloads isIncludeTag v ++ payloadsOfEntries isIncludeTag rest

end

mutual

/-- The tree with one value after the other in the places of its includes, in document order. Where
the values run out, the includes stay. -/
def fill (isIncludeTag : Tag → Bool) : Value → List Value → Value
  | .tagged t p, ws =>
    if isIncludeTag t then ws.headD (.tagged t p) else .tagged t (fill isIncludeTag p ws)
  | .sequence items, ws => .sequence (fillItems isIncludeTag items ws)
  | .mapping entries, ws => .mapping (fillEntries isIncludeTag entries ws)
  | leaf, _ => leaf

def fillItems (isIncludeTag : Tag → Bool) : List Value → List Value → List Value
  | [], _ => []
  | v :: rest, ws =>
    fill isIncludeTag v ws ::
      fillItems isIncludeTag rest (ws.drop (payloads isIncludeTag v).length)

def fillEntries (isIncludeTag : Tag → Bool) : Entries → List Value → Entries
  | [], _ => []
  | (k, v) :: rest, ws =>
    (k, fill isIncludeTag v ws) ::
      fillEntries isIncludeTag rest (ws.drop (payloads isIncludeTag v).length)

end

variable {isIncludeTag : Tag → Bool}

/-! ### No values -/

theorem fillItems_nil {items : List Value} (h : ∀ v ∈ items, fill isIncludeTag v [] = v) :
    fillItems isIncludeTag items [] = items := by
  induction items with
  | nil => rfl
  | cons v rest ih =>
    rw [fillItems, List.drop_nil, h v List.mem_cons_self, ih fun w hw => h w (List.mem_cons_of_mem v hw)]

theorem fillEntries_nil {es : Entries} (h : ∀ e ∈ es, fill isIncludeTag e.2 [] = e.2) :
    fillEntries isIncludeTag es [] = es := by
  induction es with
  | nil => rfl
  | cons e rest ih =>
    rw [fillEntries, List.drop_nil, h e List.mem_cons_self, ih fun f hf => h f (List.mem_cons_of_mem e hf)]

theorem fill_nil (v : Value) : v.fill isIncludeTag [] = v := by
  induction v using inductionOn with
  | null => rfl
  | bool b => rfl
  | number n => rfl
  | string s => rfl
  | sequence items ih => rw [fill, fillItems_nil ih]
  | mapping es ih => rw [fill, fillEntries_nil fun e he => (ih e he).2]
  | tagged t p ih =>
    rw [fill, ih]
    split <;> rfl

/-! ### Too many values -/

theorem fillItems_append {items ws us : List Value}
    (h : ∀ v ∈ items, ∀ ws us, (v.payloads isIncludeTag).length ≤ ws.length →
      v.fill isIncludeTag (ws ++ us) = v.fill isIncludeTag ws)
    (hlen : (payloadsOfItems isIncludeTag items).length ≤ ws.length) :
    fillItems isIncludeTag items (ws ++ us) = fillItems isIncludeTag items ws := by
  induction items generalizing ws with
  | nil => rfl
  | cons v rest ih =>
    rw [payloadsOfItems, List.length_append] at hlen
    have hv : (v.payloads isIncludeTag).length ≤ ws.length := by omega
    have hrest : (payloadsOfItems isIncludeTag rest).length ≤
        (ws.drop (v.payloads isIncludeTag).length).length := by
      rw [List.length_drop]
      omega
    rw [fillItems, fillItems, h v List.mem_cons_self ws us hv, List.drop_append_of_le_length hv,
      ih (fun w hw => h w (List.mem_cons_of_mem v hw)) hrest]

theorem fillEntries_append {es : Entries} {ws us : List Value}
    (h : ∀ e ∈ es, ∀ ws us, (e.2.payloads isIncludeTag).length ≤ ws.length →
      e.2.fill isIncludeTag (ws ++ us) = e.2.fill isIncludeTag ws)
    (hlen : (payloadsOfEntries isIncludeTag es).length ≤ ws.length) :
    fillEntries isIncludeTag es (ws ++ us) = fillEntries isIncludeTag es ws := by
  induction es generalizing ws with
  | nil => rfl
  | cons e rest ih =>
    rw [payloadsOfEntries, List.length_append] at hlen
    have he : (e.2.payloads isIncludeTag).length ≤ ws.length := by omega
    have hrest : (payloadsOfEntries isIncludeTag rest).length ≤
        (ws.drop (e.2.payloads isIncludeTag).length).length := by
      rw [List.length_drop]
      omega
    rw [fillEntries, fillEntries, h e List.mem_cons_self ws us he, List.drop_append_of_le_length he,
      ih (fun f hf => h f (List.mem_cons_of_mem e hf)) hrest]

/-- Values for which there is no include are left over. -/
theorem fill_append (v : Value) {ws : List Value} (hlen : (v.payloads isIncludeTag).length ≤ ws.length)
    (us : List Value) : v.fill isIncludeTag (ws ++ us) = v.fill isIncludeTag ws := by
  induction v using inductionOn generalizing ws us with
  | null => rfl
  | bool b => rfl
  | number n => rfl
  | string s => rfl
  | sequence items ih =>
    rw [payloads] at hlen
    rw [fill, fill, fillItems_append (fun v hv ws us h => ih v hv h us) hlen]
  | mapping es ih =>
    rw [payloads] at hlen
    rw [fill, fill, fillEntries_append (fun e he ws us h => (ih e he).2 h us) hlen]
  | tagged t p ih =>
    rw [payloads] at hlen
    rw [fill, fill]
    by_cases ht : isIncludeTag t = true
    · rw [if_pos ht] at hlen
      rw [if_pos ht, if_pos ht]
      cases ws with
      | nil => simp at hlen
      | cons w ws => rfl
    · rw [if_neg ht] at hlen
      rw [if_neg ht, if_neg ht, ih hlen]

end Value

/-! ## What is left -/

section Leaving
variable (handle : Value → Run (StateM σ) Value)

/-- What stands for these payloads, one after the other, is put in their places, until there are no
more or one of them fails. -/
def Leaves (ps : List Value) (put : List Value → α) (s : σ) (left : α) (failure : Option Failure)
    (s' : σ) : Prop :=
  match failure with
  | none => ∃ ws, (ps.mapM handle).Returns s ws s' ∧ left = put ws
  | some e => ∃ before p after ws s₁, ps = before ++ p :: after ∧
      (before.mapM handle).Returns s ws s₁ ∧ (handle p).Ends s₁ (.error e) s' ∧ left = put ws

variable {handle} {ps qs : List Value} {put : List Value → α} {putRest : List Value → β} {s s₁ s' : σ}
  {left : α} {rest : β} {failure : Option Failure} {e : Failure}

theorem Leaves.map (g : α → γ) (h : Leaves handle ps put s left failure s') :
    Leaves handle ps (fun ws => g (put ws)) s (g left) failure s' := by
  cases failure with
  | none =>
    obtain ⟨ws, hws, rfl⟩ := h
    exact ⟨ws, hws, rfl⟩
  | some e =>
    obtain ⟨before, p, after, ws, s₁, hps, hws, hp, rfl⟩ := h
    exact ⟨before, p, after, ws, s₁, hps, hws, hp, rfl⟩

theorem Leaves.stop (c : α → β → γ) (qs : List Value) (putRest : List Value → β)
    (h : Leaves handle ps put s left (some e) s') :
    Leaves handle (ps ++ qs) (fun ws => c (put ws) (putRest (ws.drop ps.length))) s
      (c left (putRest [])) (some e) s' := by
  obtain ⟨before, p, after, ws, s₁, rfl, hws, hp, rfl⟩ := h
  refine ⟨before, p, after ++ qs, ws, s₁, by simp, hws, hp, ?_⟩
  have hlen : ws.length ≤ (before ++ p :: after).length := by
    rw [length_of_returns_mapM hws, List.length_append]
    omega
  change c (put ws) (putRest []) = c (put ws) (putRest (ws.drop _))
  rw [List.drop_eq_nil_of_le hlen]

/-- One part is through, and it goes on with the rest. -/
theorem Leaves.append (c : α → β → γ)
    (hput : ∀ ws us, ps.length ≤ ws.length → put (ws ++ us) = put ws)
    (h : Leaves handle ps put s left none s₁) (hrest : Leaves handle qs putRest s₁ rest failure s') :
    Leaves handle (ps ++ qs) (fun ws => c (put ws) (putRest (ws.drop ps.length))) s (c left rest)
      failure s' := by
  obtain ⟨ws, hws, rfl⟩ := h
  have hlen : ws.length = ps.length := length_of_returns_mapM hws
  have hsplit : ∀ us, c (put ws) (putRest us) =
      c (put (ws ++ us)) (putRest ((ws ++ us).drop ps.length)) := by
    intro us
    rw [hput ws us (Nat.le_of_eq hlen.symm), ← hlen, List.drop_left]
  -- the values of the first part are all used up in it
  cases failure with
  | none =>
    obtain ⟨us, hus, rfl⟩ := hrest
    exact ⟨ws ++ us, returns_mapM_append hws hus, hsplit us⟩
  | some e =>
    obtain ⟨before, p, after, us, s₂, rfl, hus, hp, rfl⟩ := hrest
    exact ⟨ps ++ before, p, after, ws ++ us, s₂, by simp, returns_mapM_append hws hus, hp, hsplit us⟩

end Leaving

/-! ## Trees -/

section Trees
variable {isIncludeTag : Tag → Bool} {handle : Value → Run (StateM σ) Value} {s s' : σ}
  {failure : Option Failure}

/-- A single include is replaced, or it stays. -/
theorem leaving_leaves {tag : Tag} {p t : Value}
    (hrun : (leaving handle tag p).run s = (⟨t, failure⟩, s')) :
    Leaves handle [p] (fun ws => ws.headD (.tagged tag p)) s t failure s' := by
  unfold leaving at hrun
  rw [StateT.run_bind] at hrun
  rcases hres : (handle p).run.run s with ⟨e | w, s₁⟩
  · rw [hres] at hrun
    cases hrun
    exact ⟨[], p, [], [], s, rfl, returns_mapM_nil.mpr ⟨rfl, rfl⟩, hres, rfl⟩
  · rw [hres] at hrun
    cases hrun
    exact ⟨[t], returns_mapM_cons.mpr ⟨_, _, [], hres, returns_mapM_nil.mpr ⟨rfl, rfl⟩, rfl⟩, rfl⟩

theorem replaceItemsInPlace_leaves {items ts : List Value}
    (h : ∀ v ∈ items, ∀ {s t failure s'},
      (replaceInPlace isIncludeTag (leaving handle) v).run s = (⟨t, failure⟩, s') →
      Leaves handle (v.payloads isIncludeTag) (v.fill isIncludeTag) s t failure s')
    (hrun : (replaceItemsInPlace isIncludeTag (leaving handle) items).run s = (⟨ts, failure⟩, s')) :
    Leaves handle (Value.payloadsOfItems isIncludeTag items) (Value.fillItems isIncludeTag items) s ts
      failure s' := by
  induction items generalizing s ts with
  | nil =>
    cases hrun
    exact ⟨[], returns_mapM_nil.mpr ⟨rfl, rfl⟩, rfl⟩
  | cons v rest ih =>
    rcases replaceItemsInPlace_cons hrun with ⟨w, e, hw, rfl, rfl⟩ | ⟨w, s₁, ws, hw, hws, rfl⟩
    · have hstop := (h v List.mem_cons_self hw).stop List.cons
        (Value.payloadsOfItems isIncludeTag rest) (Value.fillItems isIncludeTag rest)
      rw [Value.fillItems_nil fun u _ => Value.fill_nil u] at hstop
      exact hstop
    · have hrest := ih (fun u hu => h u (List.mem_cons_of_mem v hu)) hws
      exact (h v List.mem_cons_self hw).append List.cons (fun _ us hlen => Value.fill_append v hlen us) hrest

theorem replaceEntriesInPlace_leaves {es ts : Entries}
    (h : ∀ e ∈ es, ∀ {s t failure s'},
      (replaceInPlace isIncludeTag (leaving handle) e.2).run s = (⟨t, failure⟩, s') →
      Leaves handle (e.2.payloads isIncludeTag) (e.2.fill isIncludeTag) s t failure s')
    (hrun : (replaceEntriesInPlace isIncludeTag (leaving handle) es).run s = (⟨ts, failure⟩, s')) :
    Leaves handle (Value.payloadsOfEntries isIncludeTag es) (Value.fillEntries isIncludeTag es) s ts
      failure s' := by
  induction es generalizing s ts with
  | nil =>
    cases hrun
    exact ⟨[], returns_mapM_nil.mpr ⟨rfl, rfl⟩, rfl⟩
  | cons e rest ih =>
    rcases replaceEntriesInPlace_cons hrun with ⟨w, x, hw, rfl, rfl⟩ | ⟨w, s₁, ws, hw, hws, rfl⟩
    · have hstop := (h e List.mem_cons_self hw).stop (fun w ws => (e.1, w) :: ws)
        (Value.payloadsOfEntries isIncludeTag rest) (Value.fillEntries isIncludeTag rest)
      rw [Value.fillEntries_nil fun f _ => Value.fill_nil f.2] at hstop
      exact hstop
    · have hrest := ih (fun f hf => h f (List.mem_cons_of_mem e hf)) hws
      exact (h e List.mem_cons_self hw).append (fun w ws => (e.1, w) :: ws)
        (fun _ us hlen => Value.fill_append e.2 hlen us) hrest

/-- To replace in place is to put what stands for the includes in their places, up to the first
failure. -/
theorem replaceInPlace_leaves {v t : Value}
    (hrun : (replaceInPlace isIncludeTag (leaving handle) v).run s = (⟨t, failure⟩, s')) :
    Leaves handle (v.payloads isIncludeTag) (v.fill isIncludeTag) s t failure s' := by
  have hleaf : ∀ {n : Value} {s t failure s'}, n.payloads isIncludeTag = [] →
      n.fill isIncludeTag [] = n → (pure ⟨n, none⟩ : StateM σ (Walked Value)).run s = (⟨t, failure⟩, s') →
      Leaves handle (n.payloads isIncludeTag) (n.fill isIncludeTag) s t failure s' := by
    intro n s t failure s' hnone hn hrun
    cases hrun
    rw [hnone]
    exact ⟨[], returns_mapM_nil.mpr ⟨rfl, rfl⟩, hn.symm⟩
  induction v using Value.inductionOn generalizing s t failure s' with
  | null => exact hleaf rfl rfl hrun
  | bool b => exact hleaf rfl rfl hrun
  | number n => exact hleaf rfl rfl hrun
  | string x => exact hleaf rfl rfl hrun
  | sequence items ih =>
    rw [replaceInPlace] at hrun
    obtain ⟨ts, hts, rfl⟩ := Walked.run_map_eq hrun
    exact (replaceItemsInPlace_leaves (fun v hv _ _ _ _ => ih v hv) hts).map Value.sequence
  | mapping es ih =>
    rw [replaceInPlace] at hrun
    obtain ⟨ts, hts, rfl⟩ := Walked.run_map_eq hrun
    exact (replaceEntriesInPlace_leaves (fun e he _ _ _ _ => (ih e he).2) hts).map Value.mapping
  | tagged tag p ih =>
    rw [replaceInPlace] at hrun
    by_cases htag : isIncludeTag tag = true
    · have hpayloads : (Value.tagged tag p).payloads isIncludeTag = [p] := by
        rw [Value.payloads, if_pos htag]
      have hfill : ∀ ws, (Value.tagged tag p).fill isIncludeTag ws = ws.headD (.tagged tag p) := by
        intro ws
        rw [Value.fill, if_pos htag]
      rw [if_pos htag] at hrun
      rw [hpayloads, funext hfill]
      exact leaving_leaves hrun
    · have hpayloads : (Value.tagged tag p).payloads isIncludeTag = p.payloads isIncludeTag := by
        rw [Value.payloads, if_neg htag]
      have hfill : ∀ ws, (Value.tagged tag p).fill isIncludeTag ws =
          .tagged tag (p.fill isIncludeTag ws) := by
        intro ws
        rw [Value.fill, if_neg htag]
      rw [if_neg htag] at hrun
      obtain ⟨t, ht, rfl⟩ := Walked.run_map_eq hrun
      rw [hpayloads, funext hfill]
      exact (ih ht).map (Value.tagged tag)

end Trees

/-! ## Walks -/

namespace Includer

variable {m : Type → Type} [Monad m]

/-- A walk that does not go on into contents puts them in the places of the includes. -/
theorem walkInPlace_eq_replaceInPlace (I : Includer m) (v : Value) :
    I.walkInPlace false v = replaceInPlace I.isInclude (leaving I.standIn) v := by
  unfold walkInPlace walkInPlaceWithin
  congr 1
  funext t p
  unfold leaving
  congr 1
  funext x
  cases x <;> rfl

/-- **A walk in place that fails has resolved the includes before the one it fails at, in document
order, and has put each content in its place. All else is left as it was: that include and those after
it, keys, other tags and the order of entries.** Its failure is the one of that include. A walk that
does not fail has resolved them all. -/
theorem walkInPlace_leaves {I : Includer (StateM σ)} {v t : Value} {failure : Option Failure} {s s' : σ}
    (hrun : (I.walkInPlace false v).run s = (⟨t, failure⟩, s')) :
    (failure = none → ∃ ws, ((v.payloads I.isInclude).mapM I.standIn).Returns s ws s' ∧
      t = v.fill I.isInclude ws) ∧
    (∀ e, failure = some e → ∃ before p after ws s₁, v.payloads I.isInclude = before ++ p :: after ∧
      (before.mapM I.standIn).Returns s ws s₁ ∧ (I.standIn p).Ends s₁ (.error e) s' ∧
      t = v.fill I.isInclude ws) := by
  rw [walkInPlace_eq_replaceInPlace] at hrun
  have hleaves := replaceInPlace_leaves hrun
  constructor
  · rintro rfl
    exact hleaves
  · rintro e rfl
    exact hleaves

def threeIncludes (first : Value) : Value :=
  .sequence [first, .tagged ⟨"other"⟩ (.mapping [(.null, .tagged includeTag (.string "b"))]),
    .tagged includeTag (.string "a")]

theorem walkInPlace_leaves_missing :
    let I := Memory.noting [("a", "")]
    let v := threeIncludes (.tagged includeTag (.string "a"))
    (I.walkInPlace false v).run [] = (⟨threeIncludes .null, some (.fault (.notFound "b"))⟩,
        [.openOne "a" {}, .openOne "b" {}]) ∧
      ∃ before p after ws s₁, v.payloads I.isInclude = before ++ p :: after ∧
        (before.mapM I.standIn).Returns [] ws s₁ ∧
        (I.standIn p).Ends s₁ (.error (.fault (.notFound "b"))) [.openOne "a" {}, .openOne "b" {}] ∧
        threeIncludes .null = v.fill I.isInclude ws :=
  ⟨rfl, (walkInPlace_leaves rfl).2 _ rfl⟩

end Includer
end Transclusion
