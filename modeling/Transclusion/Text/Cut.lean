/-!
# Cutting texts

* `cutAt c cs` : the characters before and after the first `c`; `cutOptional` where there may be none;
* `splitOn c cs` : the pieces between all `c`; `joinWith` puts them together again;
* `dropHead? head cs` : the characters after a given head.
-/

namespace Transclusion.Text

def cutAt (c : Char) : List Char → Option (List Char × List Char)
  | [] => none
  | x :: rest =>
    if x = c then some ([], rest)
    else (cutAt c rest).map fun p => (x :: p.1, p.2)

/-- What precedes the first `c`, and what follows it if it is there. -/
def cutOptional (c : Char) (cs : List Char) : List Char × Option (List Char) :=
  match cutAt c cs with
  | some (before, after) => (before, some after)
  | none => (cs, none)

/-- The pieces between the occurrences of `c`; one piece more than there are occurrences. -/
def splitOn (c : Char) : List Char → List (List Char)
  | [] => [[]]
  | x :: rest =>
    if x = c then [] :: splitOn c rest
    else match splitOn c rest with
      | [] => [[x]]
      | piece :: more => (x :: piece) :: more

def joinWith (c : Char) : List (List Char) → List Char
  | [] => []
  | [piece] => piece
  | piece :: more => piece ++ c :: joinWith c more

def dropHead? : (head cs : List Char) → Option (List Char)
  | [], cs => some cs
  | _ :: _, [] => none
  | h :: head, c :: cs => if h = c then dropHead? head cs else none

theorem cutAt_eq_none_iff {c : Char} {cs : List Char} : cutAt c cs = none ↔ c ∉ cs := by
  induction cs with
  | nil => simp [cutAt]
  | cons x rest ih =>
    by_cases h : x = c
    · simp [cutAt, h]
    · simp [cutAt, h, ih, Ne.symm h]

/-- A cut loses nothing but the character it is made at, and is made at the first one. -/
theorem cutAt_eq_some {c : Char} {cs before after : List Char} (h : cutAt c cs = some (before, after)) :
    cs = before ++ c :: after ∧ c ∉ before := by
  induction cs generalizing before with
  | nil => simp [cutAt] at h
  | cons x rest ih =>
    by_cases hx : x = c
    · simp only [cutAt, hx, ↓reduceIte, Option.some.injEq, Prod.mk.injEq] at h
      obtain ⟨rfl, rfl⟩ := h
      simp [hx]
    · simp only [cutAt, hx, ↓reduceIte, Option.map_eq_some_iff, Prod.exists, Prod.mk.injEq] at h
      obtain ⟨b, a, hb, rfl, rfl⟩ := h
      obtain ⟨rfl, hn⟩ := ih hb
      simp [hn, Ne.symm hx]

/-- A text is cut in its first part if `c` is there, and otherwise in what follows. -/
theorem cutAt_append (c : Char) (cs ds : List Char) : cutAt c (cs ++ ds) =
    ((cutAt c cs).map fun p => (p.1, p.2 ++ ds)).or ((cutAt c ds).map fun p => (cs ++ p.1, p.2)) := by
  induction cs with
  | nil => simp [cutAt]
  | cons x rest ih =>
    by_cases h : x = c
    · simp [cutAt, h]
    · simp only [List.cons_append, cutAt, h, ↓reduceIte, ih]
      cases cutAt c rest <;> simp [Function.comp_def]

/-- A cut is made at the first of the characters. -/
theorem cutAt_append_cons {c : Char} {before : List Char} (h : c ∉ before) (after : List Char) :
    cutAt c (before ++ c :: after) = some (before, after) := by
  simp [cutAt_append, cutAt_eq_none_iff.mpr h, cutAt]

/-- Characters that are replaced leave the cut where it is, if no `c` comes or goes. -/
theorem cutAt_map {c : Char} {f : Char → Char} (hf : ∀ x, f x = c ↔ x = c) (cs : List Char) :
    cutAt c (cs.map f) = (cutAt c cs).map fun p => (p.1.map f, p.2.map f) := by
  induction cs with
  | nil => rfl
  | cons x rest ih =>
    by_cases h : x = c
    · simp [cutAt, h, (hf c).mpr rfl]
    · simp [cutAt, h, hf, ih, Function.comp_def]

theorem splitOn_ne_nil (c : Char) (cs : List Char) : splitOn c cs ≠ [] := by
  cases cs with
  | nil => simp [splitOn]
  | cons x rest =>
    simp only [splitOn]
    split
    · simp
    · split <;> simp

/-- Splitting loses nothing. -/
theorem joinWith_splitOn (c : Char) (cs : List Char) : joinWith c (splitOn c cs) = cs := by
  induction cs with
  | nil => rfl
  | cons x rest ih =>
    simp only [splitOn]
    by_cases h : x = c
    · rw [if_pos h]
      cases hr : splitOn c rest with
      | nil => exact absurd hr (splitOn_ne_nil c rest)
      | cons p ps => rw [hr] at ih; simp [joinWith, ih, h]
    · rw [if_neg h]
      cases hr : splitOn c rest with
      | nil => exact absurd hr (splitOn_ne_nil c rest)
      | cons p ps =>
        rw [hr] at ih
        cases ps with
        | nil => simpa [joinWith] using ih
        | cons q qs => simp only [joinWith] at ih ⊢; simp [ih]

/-- No piece holds the character that was split at. -/
theorem not_mem_of_mem_splitOn {c : Char} {cs piece : List Char} (h : piece ∈ splitOn c cs) :
    c ∉ piece := by
  induction cs generalizing piece with
  | nil => simp_all [splitOn]
  | cons x rest ih =>
    simp only [splitOn] at h
    by_cases hx : x = c
    · rw [if_pos hx] at h
      rcases List.mem_cons.1 h with rfl | h
      · simp
      · exact ih h
    · rw [if_neg hx] at h
      cases hr : splitOn c rest with
      | nil => exact absurd hr (splitOn_ne_nil c rest)
      | cons p ps =>
        rw [hr] at h
        rcases List.mem_cons.1 h with rfl | h
        · have := ih (show p ∈ splitOn c rest by simp [hr])
          simp [this, Ne.symm hx]
        · exact ih (by simp [hr, h])

theorem length_splitOn (c : Char) (cs : List Char) : (splitOn c cs).length = cs.count c + 1 := by
  induction cs with
  | nil => rfl
  | cons x rest ih =>
    simp only [splitOn]
    by_cases h : x = c
    · simp [h, ih]
    · rw [if_neg h, List.count_cons_of_ne h]
      cases hr : splitOn c rest with
      | nil => exact absurd hr (splitOn_ne_nil c rest)
      | cons p ps => rw [← ih, hr]; rfl

/-- A text is split at a place by splitting what precedes it and what follows. -/
theorem splitOn_append (c : Char) (before after : List Char) :
    splitOn c (before ++ c :: after) = splitOn c before ++ splitOn c after := by
  induction before with
  | nil => simp [splitOn]
  | cons x rest ih =>
    simp only [splitOn, List.cons_append]
    by_cases h : x = c
    · simp [h, ih]
    · rw [if_neg h, if_neg h, ih]
      cases hr : splitOn c rest with
      | nil => exact absurd hr (splitOn_ne_nil c rest)
      | cons p ps => rfl

theorem splitOn_of_not_mem {c : Char} {cs : List Char} (h : c ∉ cs) : splitOn c cs = [cs] := by
  induction cs with
  | nil => rfl
  | cons x rest ih =>
    obtain ⟨hx, hrest⟩ : c ≠ x ∧ c ∉ rest := by simpa using h
    simp [splitOn, Ne.symm hx, ih hrest]

/-- Pieces that were put together are found again, if none holds the character between them. -/
theorem splitOn_joinWith {c : Char} {pieces : List (List Char)} (hne : pieces ≠ [])
    (hfree : ∀ piece ∈ pieces, c ∉ piece) : splitOn c (joinWith c pieces) = pieces := by
  induction pieces with
  | nil => exact absurd rfl hne
  | cons piece more ih =>
    cases more with
    | nil => exact splitOn_of_not_mem (hfree piece List.mem_cons_self)
    | cons q qs =>
      rw [joinWith, splitOn_append, splitOn_of_not_mem (hfree piece List.mem_cons_self),
        ih (List.cons_ne_nil q qs) fun x hx => hfree x (List.mem_cons_of_mem _ hx)]
      · rfl
      · exact List.cons_ne_nil q qs

theorem joinWith_concat {c : Char} {pieces : List (List Char)} (hne : pieces ≠ []) (last : List Char) :
    joinWith c (pieces ++ [last]) = joinWith c pieces ++ c :: last := by
  induction pieces with
  | nil => exact absurd rfl hne
  | cons piece more ih =>
    cases more with
    | nil => rfl
    | cons q qs =>
      have := ih (List.cons_ne_nil q qs)
      simp only [List.cons_append, joinWith] at this ⊢
      simp [this]

theorem mem_joinWith {c x : Char} {pieces : List (List Char)} (h : x ∈ joinWith c pieces) :
    x = c ∨ ∃ piece ∈ pieces, x ∈ piece := by
  induction pieces with
  | nil => cases h
  | cons piece more ih =>
    cases more with
    | nil => exact .inr ⟨piece, List.mem_cons_self, h⟩
    | cons q qs =>
      rw [joinWith, List.mem_append, List.mem_cons] at h
      · rcases h with h | rfl | h
        · exact .inr ⟨piece, List.mem_cons_self, h⟩
        · exact .inl rfl
        · exact (ih h).imp_right fun ⟨p, hp, hx⟩ => ⟨p, List.mem_cons_of_mem _ hp, hx⟩
      · exact List.cons_ne_nil q qs

theorem mem_joinWith_of_mem {c x : Char} {pieces : List (List Char)} {piece : List Char} (h : piece ∈ pieces)
    (hx : x ∈ piece) : x ∈ joinWith c pieces := by
  induction pieces with
  | nil => cases h
  | cons first more ih =>
    cases more with
    | nil => rwa [List.mem_singleton.mp h] at hx
    | cons q qs =>
      rw [joinWith, List.mem_append, List.mem_cons]
      · rcases List.mem_cons.mp h with rfl | h
        · exact .inl hx
        · exact .inr (.inr (ih h))
      · exact List.cons_ne_nil q qs

/-- The pieces of a text hold nothing else. -/
theorem mem_of_mem_splitOn {c x : Char} {cs piece : List Char} (h : piece ∈ splitOn c cs) (hx : x ∈ piece) :
    x ∈ cs := by
  have := mem_joinWith_of_mem (c := c) h hx
  rwa [joinWith_splitOn] at this

theorem dropHead?_eq_some {head cs rest : List Char} :
    dropHead? head cs = some rest ↔ cs = head ++ rest := by
  induction head generalizing cs with
  | nil => simp [dropHead?]
  | cons h head ih =>
    cases cs with
    | nil => simp [dropHead?]
    | cons c cs =>
      by_cases hc : h = c
      · simp [dropHead?, hc, ih]
      · simp [dropHead?, hc, Ne.symm hc]

end Transclusion.Text
