import Mathlib.Tactic.SplitIfs
import Transclusion.Regex.Reading

/-!
# Where expressions stop

Nothing in a written expression goes on at a closing parenthesis but names and comments.

* `Regex.Stop` : nothing is left, or a closing parenthesis comes next;
* `Regex.Steady` : what is read before a stop does not depend on what follows there;
* `Regex.skipBlanks_swap` : but for a comment, blanks end at a stop.
-/

namespace Transclusion
namespace Regex

/-- An expression in a group ends here, and so does one that is not in a group. -/
inductive Stop : List Char → Prop
  | nil : Stop []
  | paren (u : List Char) : Stop (')' :: u)

variable {t t' w rest cs : List Char} {f : Flags}

theorem Stop.ne_cons (ht : Stop t) {c : Char} {u : List Char} (hc : c ≠ ')') : t ≠ c :: u := by
  cases ht with
  | nil => nofun
  | paren v =>
    intro h
    cases h
    exact hc rfl

/-- A run of characters that a parenthesis ends does not reach a stop's own characters. -/
theorem Stop.takeWhile_append {p : Char → Bool} (ht : Stop t) (hp : p ')' = false) :
    (w ++ t).takeWhile p = w.takeWhile p := by
  induction w with
  | nil => cases ht <;> simp [hp]
  | cons c w ih => simp only [List.cons_append, List.takeWhile_cons, ih]

theorem Stop.dropWhile_append {p : Char → Bool} (ht : Stop t) (hp : p ')' = false) :
    (w ++ t).dropWhile p = w.dropWhile p ++ t := by
  induction w with
  | nil => cases ht <;> simp [hp]
  | cons c w ih =>
    simp only [List.cons_append, List.dropWhile_cons, ih]
    split <;> rfl

/-- A run of characters that a parenthesis does not end either ends before the stop, or has the parenthesis in it,
or goes to the end of the text. -/
theorem Stop.dropWhile_cases {p : Char → Bool} (hp : p ')' = true) (w : List Char) :
    (∃ u d v, ∀ t, (w ++ t).takeWhile p = u ∧ (w ++ t).dropWhile p = d :: (v ++ t)) ∨
      ∀ t, Stop t → ')' ∈ (w ++ t).takeWhile p ∨ (w ++ t).dropWhile p = [] := by
  induction w with
  | nil =>
    refine .inr fun t ht => ?_
    cases ht with
    | nil => exact .inr rfl
    | paren u => simp [hp]
  | cons c w ih =>
    by_cases hc : p c = true
    · simp only [List.cons_append, List.takeWhile_cons, List.dropWhile_cons, hc, if_true]
      rcases ih with ⟨u, d, v, h⟩ | h
      · exact .inl ⟨c :: u, d, v, fun t => ⟨congrArg _ (h t).1, (h t).2⟩⟩
      · exact .inr fun t ht => (h t ht).imp_left (List.mem_cons_of_mem c)
    · simp only [List.cons_append, List.takeWhile_cons, List.dropWhile_cons, hc]
      exact .inl ⟨[], c, w, fun t => ⟨rfl, rfl⟩⟩

/-- What is left behind at least one character that was taken. -/
structure Behind (rest cs : List Char) : Prop where
  suffix : rest <:+ cs
  lt : rest.length < cs.length

namespace Behind

variable {c : Char} {r : List Char}

theorem cons (h : rest <:+ cs) : Behind rest (c :: cs) := ⟨h.trans (List.suffix_cons c cs), Nat.lt_succ_of_le h.length_le⟩

theorem trans_suffix (h : Behind rest r) (hr : r <:+ cs) : Behind rest cs :=
  ⟨h.suffix.trans hr, Nat.lt_of_lt_of_le h.lt hr.length_le⟩

theorem suffix_trans (h : rest <:+ r) (hr : Behind r cs) : Behind rest cs :=
  ⟨h.trans hr.suffix, Nat.lt_of_le_of_lt h.length_le hr.lt⟩

/-- Of what stands in front of a stop that is left, some character was taken. -/
theorem exists_cons (h : Behind (rest ++ t) r) : ∃ c v, r = c :: (v ++ t) := by
  obtain ⟨u, rfl⟩ := h.suffix
  cases u with
  | nil => exact absurd h.lt (Nat.lt_irrefl _)
  | cons c u => exact ⟨c, u ++ rest, by simp⟩

theorem of_ne_nil (hrest : rest ≠ []) (h : rest ++ t <:+ r) : Behind t r :=
  ⟨(List.suffix_append rest t).trans h, Nat.lt_of_lt_of_le
    (by rw [List.length_append]; exact Nat.lt_add_of_pos_left (List.length_pos_iff.mpr hrest)) h.length_le⟩

theorem drop_append (h : Behind (rest ++ t) r) : Behind t r := .suffix_trans (List.suffix_append rest t) h

end Behind

/-! ## Blanks and comments -/

theorem skipBlanks_suffix (f : Flags) (cs : List Char) : skipBlanks f cs <:+ cs ∧ skipBlanks.comment f cs <:+ cs := by
  induction cs with
  | nil => exact ⟨List.suffix_rfl, List.suffix_rfl⟩
  | cons c cs ih =>
    have hlater {u : List Char} (h : u <:+ cs) : u <:+ c :: cs := h.trans (List.suffix_cons c cs)
    constructor
    · unfold skipBlanks
      split
      · exact List.suffix_rfl
      · split
        · exact hlater ih.1
        · split
          · exact hlater ih.2
          · exact List.suffix_rfl
    · unfold skipBlanks.comment
      split
      · exact hlater ih.1
      · exact hlater ih.2

theorem Stop.skipBlanks_eq (ht : Stop t) : skipBlanks f t = t := by
  cases ht with
  | nil => rfl
  | paren u =>
    have hblank : Text.isBlank ')' = false := by decide
    simp [skipBlanks, hblank]

/-- No comment ends at a stop. -/
theorem Stop.not_suffix_comment (ht : Stop t) (hne : t ≠ []) : ¬ t <:+ skipBlanks.comment f t := by
  cases ht with
  | nil => exact absurd rfl hne
  | paren u =>
    intro h
    have hcomment : skipBlanks.comment f (')' :: u) = skipBlanks.comment f u := rfl
    have hle := (h.trans (hcomment ▸ (skipBlanks_suffix f u).2)).length_le
    exact Nat.not_succ_le_self _ hle

/-- Blanks that end at or before a stop end at the same place with any other stop. Without characters left in front
of the end of the text, a comment may be open. -/
theorem skipBlanks_swap (ht : Stop t) (ht' : Stop t') (hne : rest ≠ [] ∨ t ≠ []) :
    (skipBlanks f (w ++ t) = rest ++ t → skipBlanks f (w ++ t') = rest ++ t') ∧
      (skipBlanks.comment f (w ++ t) = rest ++ t → skipBlanks.comment f (w ++ t') = rest ++ t') := by
  induction w with
  | nil =>
    constructor
    · rw [List.nil_append, List.nil_append, ht.skipBlanks_eq, ht'.skipBlanks_eq]
      intro h
      rw [List.self_eq_append_left.mp h, List.nil_append]
    · intro h
      rw [List.nil_append] at h
      cases t with
      | nil =>
        cases rest with
        | nil => exact absurd rfl (hne.elim id id)
        | cons c rest => cases h
      | cons c u => exact absurd ⟨rest, h.symm⟩ (ht.not_suffix_comment (List.cons_ne_nil c u))
  | cons c w ih =>
    have hkeep (h : c :: (w ++ t) = rest ++ t) : c :: (w ++ t') = rest ++ t' := by
      rw [← List.cons_append] at h ⊢
      rw [List.append_cancel_right h]
    constructor
    · simp only [List.cons_append, skipBlanks]
      split_ifs
      · exact hkeep
      · exact ih.1
      · exact ih.2
      · exact hkeep
    · simp only [List.cons_append, skipBlanks.comment]
      split_ifs
      · exact ih.1
      · exact ih.2

/-- At the end of a text no comment is open, or the parenthesis that comes next belongs to it. -/
theorem skipBlanks_concat (f : Flags) (w : List Char) :
    (skipBlanks f w = [] → skipBlanks f (w ++ [')']) = [')'] ∨ skipBlanks f (w ++ [')']) = []) ∧
      (skipBlanks.comment f w = [] →
        skipBlanks.comment f (w ++ [')']) = [')'] ∨ skipBlanks.comment f (w ++ [')']) = []) := by
  induction w with
  | nil => exact ⟨fun _ => .inl (Stop.paren []).skipBlanks_eq, fun _ => .inr rfl⟩
  | cons c w ih =>
    constructor
    · simp only [List.cons_append, skipBlanks]
      split_ifs
      · nofun
      · exact ih.1
      · exact ih.2
      · nofun
    · simp only [List.cons_append, skipBlanks.comment]
      split_ifs
      · exact ih.1
      · exact ih.2

/-- Blanks end at one place in front of every stop, if some character is left there. -/
theorem exists_skipBlanks_eq (ht : Stop t) (h : Behind t (skipBlanks f (w ++ t))) :
    ∃ c v, ∀ t', Stop t' → skipBlanks f (w ++ t') = c :: (v ++ t') := by
  have hempty : Behind ([] ++ t) (skipBlanks f (w ++ t)) := h
  obtain ⟨c, v, hv⟩ := hempty.exists_cons
  exact ⟨c, v, fun t' ht' => (skipBlanks_swap ht ht' (.inl (List.cons_ne_nil c v))).1 hv⟩

/-! ## Readers -/

theorem map_swap {α : Type} {o : Option α} {a : α} (h : o.map (fun a => (a, w ++ t)) = some (a, rest ++ t)) :
    o.map (fun a => (a, w ++ t')) = some (a, rest ++ t') := by
  obtain ⟨b, ho, heq⟩ := Option.map_eq_some_iff.mp h
  obtain ⟨rfl, hw⟩ := Prod.mk.inj heq
  rw [ho, List.append_cancel_right hw]
  rfl

theorem some_swap {α : Type} {a b : α} (h : some (a, w ++ t) = some (b, rest ++ t)) :
    some (a, w ++ t') = some (b, rest ++ t') :=
  map_swap (o := some a) h

/-- A reader takes the same from a text whatever stop comes after what it takes, if `ok` holds of what it gives and
of what it leaves in front of the stop. -/
structure Steady {α : Type} (ok : α → List Char → Prop) (P : List Char → Option (α × List Char)) : Prop where
  suffix {cs rest : List Char} {a : α} : P cs = some (a, rest) → rest <:+ cs
  swap {t t' w rest : List Char} {a : α} : Stop t → Stop t' → ok a rest →
    P (w ++ t) = some (a, rest ++ t) → P (w ++ t') = some (a, rest ++ t')

namespace Steady

variable {α β : Type} {ok : α → List Char → Prop} {ok' : β → List Char → Prop}
  {P P' : List Char → Option (α × List Char)} {Q : α → List Char → Option (β × List Char)}

theorem option (o : Option α) : Steady ok fun cs => o.map fun a => (a, cs) where
  suffix h := by
    obtain ⟨a, -, heq⟩ := Option.map_eq_some_iff.mp h
    cases heq
    exact List.suffix_rfl
  swap _ _ _ h := map_swap h

theorem filterMap (hp : Steady ok P) (g : α → Option β)
    (hok : ∀ a b rest, g a = some b → ok' b rest → ok a rest) :
    Steady ok' fun cs => (P cs).bind fun (a, rest) => (g a).map fun b => (b, rest) where
  suffix h := by
    obtain ⟨⟨a, rest⟩, hcs, h⟩ := Option.bind_eq_some_iff.mp h
    obtain ⟨b, -, heq⟩ := Option.map_eq_some_iff.mp h
    cases heq
    exact hp.suffix hcs
  swap {t t' w rest b} ht ht' hb h := by
    obtain ⟨⟨a, r⟩, hcs, h⟩ := Option.bind_eq_some_iff.mp h
    obtain ⟨b, hg, heq⟩ := Option.map_eq_some_iff.mp h
    obtain ⟨rfl, rfl⟩ := Prod.mk.inj heq
    refine Option.bind_eq_some_iff.mpr ⟨(a, rest ++ t'), hp.swap ht ht' (hok a b rest hg hb) hcs, ?_⟩
    exact Option.map_eq_some_iff.mpr ⟨b, hg, rfl⟩

theorem map (hp : Steady ok P) (g : α → β) (hok : ∀ a rest, ok' (g a) rest → ok a rest) :
    Steady ok' fun cs => (P cs).map fun (a, rest) => (g a, rest) := by
  have heq : (fun cs => (P cs).map fun (a, rest) => (g a, rest)) =
      fun cs => (P cs).bind fun (a, rest) => (some (g a)).map fun b => (b, rest) := by
    funext cs
    cases P cs <;> rfl
  rw [heq]
  refine hp.filterMap (fun a => some (g a)) fun a b rest hg hb => hok a rest ?_
  cases hg
  exact hb

theorem guarded (hp : Steady ok P) (p : Prop) [Decidable p] : Steady ok fun cs => if p then P cs else none := by
  by_cases h : p
  · simpa only [if_pos h] using hp
  · simp only [if_neg h]
    exact option none

/-- A reader that takes a first character, whichever it is, and goes on from there. -/
theorem ofCons (hnil : P [] = none) (hcons : ∀ c, Steady ok fun cs => P (c :: cs)) : Steady ok P where
  suffix {cs rest a} h := by
    cases cs with
    | nil => cases hnil.symm.trans h
    | cons c cs => exact ((hcons c).suffix h).trans (List.suffix_cons c cs)
  swap {t t' w rest a} ht ht' ha h := by
    cases w with
    | cons c w => exact (hcons c).swap ht ht' ha h
    | nil =>
      cases ht with
      | nil => cases hnil.symm.trans h
      | paren u =>
        have hle := ((hcons ')').suffix h).length_le
        simp only [List.length_append, List.length_cons] at hle
        omega

/-- Two readers in a row, if the first may leave what the second reads. -/
theorem bind (hp : Steady ok P) (hq : ∀ a, Steady ok' (Q a))
    (hok : ∀ a b r rest t, Stop t → Q a (r ++ t) = some (b, rest ++ t) → ok a r) :
    Steady ok' fun cs => (P cs).bind fun (a, rest) => Q a rest where
  suffix h := by
    obtain ⟨⟨a, r⟩, hcs, h⟩ := Option.bind_eq_some_iff.mp h
    exact ((hq a).suffix h).trans (hp.suffix hcs)
  swap {t t' w rest b} ht ht' hb h := by
    obtain ⟨⟨a, r⟩, hcs, h⟩ := Option.bind_eq_some_iff.mp h
    obtain ⟨v, rfl⟩ := (hq a).suffix h
    rw [← List.append_assoc] at hcs h
    refine Option.bind_eq_some_iff.mpr ⟨(a, v ++ rest ++ t'), ?_, (hq a).swap ht ht' hb h⟩
    exact hp.swap ht ht' (hok a b _ rest t ht h) hcs

/-- A reader that goes on from one character, and is another one at all others. -/
theorem ofHead {c : Char} (hc : c ≠ ')') (hcons : Steady ok fun cs => P (c :: cs)) (hp : Steady ok P')
    (heq : ∀ cs, (∀ v, cs ≠ c :: v) → P cs = P' cs) : Steady ok P where
  suffix {cs rest a} h := by
    by_cases hcs : ∃ v, cs = c :: v
    · obtain ⟨v, rfl⟩ := hcs
      exact (hcons.suffix h).trans (List.suffix_cons c v)
    · rw [heq cs fun v hv => hcs ⟨v, hv⟩] at h
      exact hp.suffix h
  swap {t t' w rest a} ht ht' ha h := by
    cases w with
    | nil =>
      rw [List.nil_append, heq t fun v => ht.ne_cons hc] at h
      rw [List.nil_append, heq t' fun v => ht'.ne_cons hc]
      exact hp.swap (w := []) ht ht' ha h
    | cons d w =>
      by_cases hd : d = c
      · subst hd
        exact hcons.swap ht ht' ha h
      · have hne (u v : List Char) : d :: w ++ u ≠ c :: v := fun h => hd (List.cons.inj h).1
        rw [heq _ (hne t)] at h
        rw [heq _ (hne t')]
        exact hp.swap ht ht' ha h

theorem skipBlanksBefore (hp : Steady ok P) (hbehind : ∀ cs a rest, P cs = some (a, rest) → Behind rest cs) :
    Steady ok fun cs => P (skipBlanks f cs) where
  suffix h := (hp.suffix h).trans (skipBlanks_suffix f _).1
  swap ht ht' ha h := by
    obtain ⟨c, v, hv⟩ := exists_skipBlanks_eq ht (hbehind _ _ _ h).drop_append
    rw [hv _ ht] at h
    rw [hv _ ht']
    exact hp.swap (w := c :: v) ht ht' ha h

theorem skipBlanksAfter (hp : Steady (fun _ _ => True) P) :
    Steady (fun _ rest => rest ≠ []) fun cs => (P cs).map fun (a, rest) => (a, skipBlanks f rest) where
  suffix h := by
    obtain ⟨⟨a, r⟩, hcs, heq⟩ := Option.map_eq_some_iff.mp h
    cases heq
    exact (skipBlanks_suffix f r).1.trans (hp.suffix hcs)
  swap {t t' w rest a} ht ht' hrest h := by
    obtain ⟨⟨a, r⟩, hcs, heq⟩ := Option.map_eq_some_iff.mp h
    obtain ⟨rfl, hskip⟩ := Prod.mk.inj heq
    obtain ⟨v, rfl⟩ := (List.suffix_append rest t).trans (hskip ▸ (skipBlanks_suffix f r).1)
    refine Option.map_eq_some_iff.mpr ⟨_, hp.swap ht ht' trivial hcs, ?_⟩
    exact congrArg _ ((skipBlanks_swap ht ht' (.inl hrest)).1 hskip)

/-- What stands up to a character that closes it, if no parenthesis may stand in it. -/
theorem closed {p : Char → Bool} (hp : p ')' = true) {g : List Char → Option α}
    (hg : ∀ name a, g name = some a → ')' ∉ name) :
    Steady (fun _ _ => True) fun cs => match cs.dropWhile p with
      | _ :: after => (g (cs.takeWhile p)).map fun a => (a, after)
      | [] => none where
  suffix {cs rest a} h := by
    split at h
    · rename_i d left hdrop
      obtain ⟨b, -, heq⟩ := Option.map_eq_some_iff.mp h
      cases heq
      exact (List.suffix_cons d rest).trans (hdrop ▸ List.dropWhile_suffix p)
    · cases h
  swap {t t' w rest a} ht ht' _ h := by
    rcases Stop.dropWhile_cases hp w with ⟨u, d, v, hw⟩ | hw
    · simp only [hw] at h ⊢
      exact map_swap h
    · rcases hw t ht with hmem | hnil
      · split at h
        · obtain ⟨b, hb, -⟩ := Option.map_eq_some_iff.mp h
          exact absurd hmem (hg _ _ hb)
        · cases h
      · rw [hnil] at h
        cases h

theorem taken (n : Nat) {g : List Char → Option α} (hg : ∀ ds a, g ds = some a → ')' ∉ ds) :
    Steady (fun _ _ => True) fun cs => if cs.length < n then none else (g (cs.take n)).map fun a => (a, cs.drop n) where
  suffix {cs rest a} h := by
    split at h
    · cases h
    · obtain ⟨b, -, heq⟩ := Option.map_eq_some_iff.mp h
      cases heq
      exact List.drop_suffix n cs
  swap {t t' w rest a} ht ht' _ h := by
    split at h
    · cases h
    · rename_i hlength
      obtain ⟨b, hb, heq⟩ := Option.map_eq_some_iff.mp h
      obtain ⟨rfl, hdrop⟩ := Prod.mk.inj heq
      by_cases hn : n ≤ w.length
      · rw [List.take_append_of_le_length hn] at hb
        rw [List.drop_append_of_le_length hn] at hdrop
        have hshort : ¬ (w ++ t').length < n := by
          rw [List.length_append]
          omega
        rw [if_neg hshort, List.take_append_of_le_length hn, List.drop_append_of_le_length hn, hb,
          List.append_cancel_right hdrop]
        rfl
      · cases ht with
        | nil => simp at hlength; omega
        | paren u =>
          refine absurd ?_ (hg _ _ hb)
          obtain ⟨k, hk⟩ : ∃ k, n - w.length = k + 1 := ⟨n - w.length - 1, by omega⟩
          rw [List.take_append, hk, List.take_succ_cons]
          exact List.mem_append_right _ List.mem_cons_self

end Steady

end Regex
end Transclusion
