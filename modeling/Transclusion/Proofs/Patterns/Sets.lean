import Transclusion.Proofs.Patterns.Escapes

/-!
# Where sets stop

* `Regex.steady_classItem?` : an item of a set is read in front of a stop;
* `Regex.asciiItem?_cases`, `Regex.setOp?_cases` : whether it is a set with a name or an operator does not depend on the
  stop;
* `Regex.classBody_behind` : a set takes characters, its closing bracket at least;
* `Regex.classBody_swap` : a set in brackets is read within its brackets.
-/

namespace Transclusion
namespace Regex

open CharClass (one)

variable {t t' w rest cs : List Char} {f : Flags}

/-! ## Items and ranges -/

def Escape.item? : Escape → Option (Char ⊕ CharClass)
  | .char c => some (.inl c)
  | .set k => some (.inr k)
  | .check _ => none

theorem steady_classItem?_cons (f : Flags) (c : Char) : Steady (fun _ _ => True) fun cs => classItem? f (c :: cs) := by
  by_cases hc : c = '\\'
  · subst hc
    have heq : (fun cs => classItem? f ('\\' :: cs)) =
        fun cs => (escape? f cs).bind fun (e, rest) => e.item?.map fun item => (item, rest) := by
      funext cs
      rw [classItem?]
      rcases escape? f cs with _ | ⟨_ | _ | _, _⟩ <;> rfl
    rw [heq]
    refine (steady_escape? f).filterMap Escape.item? fun e b rest hitem _ he => ?_
    subst he
    cases hitem
  · have heq : (fun cs => classItem? f (c :: cs)) = fun cs => (some (.inl c)).map fun item => (item, cs) := by
      funext cs
      unfold classItem?
      split <;> simp_all
    rw [heq]
    exact .option _

theorem steady_classItem? (f : Flags) : Steady (fun _ _ => True) (classItem? f) := .ofCons rfl (steady_classItem?_cons f)

theorem classItem?_behind {item : Char ⊕ CharClass} (h : classItem? f cs = some (item, rest)) : Behind rest cs := by
  cases cs with
  | nil => cases h
  | cons c cs => exact .cons ((steady_classItem?_cons f c).suffix h)

def alone (f : Flags) : Char ⊕ CharClass → CharClass
  | .inl c => cased f (one c)
  | .inr k => k

/-- A range from an item to another. Both are characters, and in their order. -/
def range? (f : Flags) (item last : Char ⊕ CharClass) (rest : List Char) : Option (CharClass × List Char) :=
  match item, last with
  | .inl a, .inl b => if a ≤ b then some (cased f (.range a b), rest) else none
  | _, _ => none

/-- What an item begins: a set of its own, or a range. -/
def rangeFrom? (f : Flags) (item : Char ⊕ CharClass) (cs : List Char) : Option (CharClass × List Char) :=
  match skipBlanks f cs with
  | [] => none
  | '-' :: after =>
    match skipBlanks f after with
    | ']' :: _ => some (alone f item, skipBlanks f cs)
    | '-' :: _ => some (alone f item, skipBlanks f cs)
    | after => (classItem? f after).bind fun (last, rest) => range? f item last rest
  | rest => some (alone f item, rest)

theorem classRange?_eq (f : Flags) (cs : List Char) :
    classRange? f cs = (classItem? f cs).bind fun (item, rest) => rangeFrom? f item rest := rfl

theorem steady_range? (f : Flags) (item last : Char ⊕ CharClass) : Steady (fun _ _ => True) (range? f item last) := by
  have heq : range? f item last = fun cs => ((range? f item last []).map (·.1)).map fun k => (k, cs) := by
    funext cs
    unfold range?
    split
    · split <;> rfl
    · rfl
  rw [heq]
  exact .option _

theorem rangeFrom?_eq (f : Flags) (item : Char ⊕ CharClass) (cs : List Char) : rangeFrom? f item cs =
    match skipBlanks f cs with
    | [] => none
    | c :: after =>
      if c = '-' ∧ (skipBlanks f after).head? ≠ some ']' ∧ (skipBlanks f after).head? ≠ some '-' then
        (classItem? f (skipBlanks f after)).bind fun (last, rest) => range? f item last rest
      else some (alone f item, c :: after) := by
  unfold rangeFrom?
  generalize skipBlanks f cs = left
  split
  · rfl
  · rename_i after
    dsimp only
    generalize skipBlanks f after = next
    cases next <;> split <;> simp_all
  · rename_i hnil hhyphen
    cases left with
    | nil => exact absurd rfl hnil
    | cons c after =>
      have hc : c ≠ '-' := fun hc => hhyphen after (hc ▸ rfl)
      simp [hc]

theorem rangeFrom?_suffix {item : Char ⊕ CharClass} {k : CharClass} (h : rangeFrom? f item cs = some (k, rest)) :
    rest <:+ skipBlanks f cs := by
  rw [rangeFrom?_eq] at h
  split at h
  · cases h
  · rename_i c after hskip
    rw [hskip]
    split at h
    · obtain ⟨⟨last, left⟩, hlast, h⟩ := Option.bind_eq_some_iff.mp h
      have hleft : rest <:+ left := (steady_range? f item last).suffix h
      exact hleft.trans ((classItem?_behind hlast).suffix.trans
        ((skipBlanks_suffix f after).1.trans (List.suffix_cons c after)))
    · cases h
      exact List.suffix_rfl

theorem classRange?_behind {k : CharClass} (h : classRange? f cs = some (k, rest)) : Behind rest cs := by
  rw [classRange?_eq] at h
  obtain ⟨⟨item, left⟩, hitem, h⟩ := Option.bind_eq_some_iff.mp h
  exact .suffix_trans ((rangeFrom?_suffix h).trans (skipBlanks_suffix f left).1) (classItem?_behind hitem)

theorem rangeFrom?_swap (ht : Stop t) (ht' : Stop t') {item : Char ⊕ CharClass} {k : CharClass} (hrest : rest ≠ [])
    (hhyphen : ∀ v, rest = '-' :: v → t <:+ skipBlanks f (v ++ t))
    (h : rangeFrom? f item (w ++ t) = some (k, rest ++ t)) : rangeFrom? f item (w ++ t') = some (k, rest ++ t') := by
  obtain ⟨c, v, hv⟩ := exists_skipBlanks_eq ht (.of_ne_nil hrest (rangeFrom?_suffix h))
  rw [rangeFrom?_eq, hv t ht] at h
  rw [rangeFrom?_eq, hv t' ht']
  dsimp only at h ⊢
  by_cases hc : c = '-'
  · subst hc
    have hnext : Behind t (skipBlanks f (v ++ t)) := by
      split at h
      · obtain ⟨⟨last, left⟩, hlast, h⟩ := Option.bind_eq_some_iff.mp h
        exact .suffix_trans ((List.suffix_append rest t).trans ((steady_range? f item last).suffix h))
          (classItem?_behind hlast)
      · rename_i hhead
        obtain ⟨u, hu⟩ := hhyphen v (List.append_cancel_right (Prod.mk.inj (Option.some.inj h)).2).symm
        have hne : u ≠ [] := by
          rintro rfl
          rw [← hu] at hhead
          cases ht <;> simp at hhead
        exact .of_ne_nil hne (hu ▸ List.suffix_rfl)
    obtain ⟨d, u, hu⟩ := exists_skipBlanks_eq ht hnext
    simp only [hu t ht, hu t' ht', List.head?_cons] at h ⊢
    split_ifs at h ⊢
    · obtain ⟨⟨last, left⟩, hlast, h⟩ := Option.bind_eq_some_iff.mp h
      dsimp only at h
      obtain ⟨v', rfl⟩ := (steady_range? f item last).suffix h
      rw [← List.append_assoc] at hlast h
      refine Option.bind_eq_some_iff.mpr ⟨(last, v' ++ rest ++ t'), ?_, ?_⟩
      · exact (steady_classItem? f).swap (w := d :: u) ht ht' trivial hlast
      · exact (steady_range? f item last).swap ht ht' trivial h
    · exact some_swap (w := '-' :: v) h
  · simp only [hc, false_and, if_false] at h ⊢
    exact some_swap (w := c :: v) h

/-! ## Bodies -/

def asciiNamed? (f : Flags) (negated : Bool) (body : List Char) : Option (CharClass × List Char) :=
  match body.dropWhile (· != ':') with
  | ':' :: ']' :: after =>
    (asciiClass? (String.ofList (body.takeWhile (· != ':')))).map fun k =>
      (if negated then .compl (cased f k) else cased f k, after)
  | _ => none

theorem asciiNamed?_suffix {negated : Bool} {k : CharClass} (h : asciiNamed? f negated cs = some (k, rest)) :
    rest <:+ cs := by
  unfold asciiNamed? at h
  split at h
  · rename_i after hdrop
    obtain ⟨b, -, heq⟩ := Option.map_eq_some_iff.mp h
    cases heq
    have hcs : ':' :: ']' :: rest <:+ cs := hdrop ▸ List.dropWhile_suffix _
    exact (List.suffix_append [':', ']'] rest).trans hcs
  · cases h

/-- Whether a set with a name stands in front of a stop does not depend on the stop, and neither does the set. -/
theorem asciiNamed?_cases (f : Flags) (negated : Bool) (w : List Char) :
    (∃ k v, ∀ t, Stop t → asciiNamed? f negated (w ++ t) = some (k, v ++ t)) ∨
      ∀ t, Stop t → asciiNamed? f negated (w ++ t) = none := by
  unfold asciiNamed?
  rcases Stop.dropWhile_cases (p := (· != ':')) rfl w with ⟨u, d, v, hw⟩ | hw
  · simp only [hw]
    cases v with
    | nil =>
      refine .inr fun t ht => ?_
      cases ht <;> simp
    | cons e v =>
      by_cases hclose : d = ':' ∧ e = ']'
      · obtain ⟨rfl, rfl⟩ := hclose
        cases hk : asciiClass? (String.ofList u) with
        | none => exact .inr fun t ht => by simp
        | some k => exact .inl ⟨_, v, fun t ht => rfl⟩
      · exact .inr fun t ht => by simp_all
  · refine .inr fun t ht => ?_
    rcases hw t ht with hmem | hnil
    · split
      · rw [Option.map_eq_none_iff, Option.eq_none_iff_forall_ne_some]
        exact fun k hk => paren_not_mem_of_asciiClass? hk hmem
      · rfl
    · rw [hnil]

/-- Whether the set is the complement of the one with the name, and what follows the sign for it. -/
def nameSign (cs : List Char) : Bool × List Char :=
  match cs with
  | '^' :: body => (true, body)
  | _ => (false, cs)

theorem nameSign_suffix (cs : List Char) : (nameSign cs).2 <:+ cs := by
  unfold nameSign
  split
  · exact List.suffix_cons '^' _
  · exact List.suffix_rfl

theorem nameSign_append (w : List Char) : ∃ negated v, ∀ t, Stop t → nameSign (w ++ t) = (negated, v ++ t) := by
  cases w with
  | nil =>
    refine ⟨false, [], fun t ht => ?_⟩
    cases ht <;> rfl
  | cons c w =>
    by_cases hc : c = '^'
    · subst hc
      exact ⟨true, w, fun t _ => rfl⟩
    · refine ⟨false, c :: w, fun t _ => ?_⟩
      simp [nameSign, hc]

theorem asciiItem?_colon (f : Flags) (cs : List Char) :
    asciiItem? f (':' :: cs) = asciiNamed? f (nameSign cs).1 (nameSign cs).2 := rfl

theorem asciiItem?_of_ne (hcs : ∀ v, cs ≠ ':' :: v) : asciiItem? f cs = none := by
  unfold asciiItem?
  split
  · exact absurd rfl (hcs _)
  · rfl

theorem asciiItem?_suffix {k : CharClass} (h : asciiItem? f cs = some (k, rest)) : rest <:+ cs := by
  by_cases hcs : ∃ v, cs = ':' :: v
  · obtain ⟨v, rfl⟩ := hcs
    rw [asciiItem?_colon] at h
    exact (asciiNamed?_suffix h).trans ((nameSign_suffix v).trans (List.suffix_cons ':' v))
  · rw [asciiItem?_of_ne fun v hv => hcs ⟨v, hv⟩] at h
    cases h

theorem asciiItem?_cases (f : Flags) (w : List Char) :
    (∃ k v, ∀ t, Stop t → asciiItem? f (w ++ t) = some (k, v ++ t)) ∨ ∀ t, Stop t → asciiItem? f (w ++ t) = none := by
  cases w with
  | nil => exact .inr fun t ht => asciiItem?_of_ne fun v => ht.ne_cons (by decide)
  | cons c w =>
    by_cases hc : c = ':'
    · subst hc
      obtain ⟨negated, u, hsign⟩ := nameSign_append w
      have hitem (t : List Char) (ht : Stop t) : asciiItem? f (':' :: w ++ t) = asciiNamed? f negated (u ++ t) := by
        rw [List.cons_append, asciiItem?_colon, hsign t ht]
      rcases asciiNamed?_cases f negated u with ⟨k, v, h⟩ | h
      · exact .inl ⟨k, v, fun t ht => (hitem t ht).trans (h t ht)⟩
      · exact .inr fun t ht => (hitem t ht).trans (h t ht)
    · exact .inr fun t _ => asciiItem?_of_ne fun v hv => hc (List.cons.inj hv).1

def opOf? : Char → Char → Option SetOp
  | '&', '&' => some .inter
  | '-', '-' => some .diff
  | '~', '~' => some .either
  | _, _ => none

theorem opOf?_paren (c : Char) : opOf? c ')' = none := by
  unfold opOf?
  split <;> simp_all

def setOp? : List Char → Option (SetOp × List Char)
  | c :: d :: rest => (opOf? c d).map fun op => (op, rest)
  | _ => none

theorem setOp?_suffix {c : Char} {op : SetOp} (h : setOp? (c :: cs) = some (op, rest)) : rest <:+ cs := by
  cases cs with
  | nil => cases h
  | cons d cs =>
    obtain ⟨op, -, heq⟩ := Option.map_eq_some_iff.mp h
    cases heq
    exact List.suffix_cons d rest

theorem setOp?_cases (c : Char) (w : List Char) :
    (∃ op v, ∀ t, Stop t → setOp? (c :: (w ++ t)) = some (op, v ++ t)) ∨
      ∀ t, Stop t → setOp? (c :: (w ++ t)) = none := by
  cases w with
  | nil =>
    refine .inr fun t ht => ?_
    cases ht with
    | nil => rfl
    | paren u => simp [setOp?, opOf?_paren]
  | cons d w =>
    cases hop : opOf? c d with
    | none => exact .inr fun t ht => by simp [setOp?, hop]
    | some op => exact .inl ⟨op, w, fun t ht => by simp [setOp?, hop]⟩

/-- A set that an operator waits with, and the one it waits for. -/
def joined (left : Option (SetOp × CharClass)) (sofar : CharClass) : CharClass :=
  match left with
  | some (op, a) => op.apply a sofar
  | none => sofar

def classStep? (f : Flags) (n : Nat) (left : Option (SetOp × CharClass)) (sofar : CharClass) :
    List Char → Option ((Option (SetOp × CharClass) × CharClass) × List Char)
  | '[' :: rest =>
    match asciiItem? f rest with
    | some (k, rest) => some ((left, .union sofar k), rest)
    | none => (classBody.bracketed f n rest).map fun (k, rest) => ((left, .union sofar k), rest)
  | cs =>
    match setOp? cs with
    | some (op, rest) => some ((some (op, joined left sofar), .none), rest)
    | none => (classRange? f cs).map fun (k, rest) => ((left, .union sofar k), rest)

theorem classBody_succ (f : Flags) (n : Nat) (left : Option (SetOp × CharClass)) (sofar : CharClass) (cs : List Char) :
    classBody f (n + 1) left sofar cs = match skipBlanks f cs with
      | [] => none
      | c :: rest =>
        if c = ']' then some (joined left sofar, rest)
        else (classStep? f n left sofar (c :: rest)).bind fun (x, rest) => classBody f n x.1 x.2 rest := by
  rw [classBody.eq_def]
  dsimp only
  generalize skipBlanks f cs = r
  split
  · rfl
  · rfl
  · rename_i rest
    cases h : asciiItem? f rest with
    | none =>
      simp only [classStep?, h]
      cases classBody.bracketed f n rest <;> rfl
    | some x => simp [classStep?, h]
  · rfl
  · rfl
  · rfl
  · rename_i hnil hclose hopen hinter hdiff heither
    cases r with
    | nil => exact absurd rfl hnil
    | cons c rest =>
      have hc : c ≠ ']' := fun h => hclose rest (h ▸ rfl)
      have hop : setOp? (c :: rest) = none := by
        cases rest with
        | nil => rfl
        | cons d rest =>
          simp only [setOp?, opOf?]
          split <;> simp_all
      have hstep : classStep? f n left sofar (c :: rest) =
          (classRange? f (c :: rest)).map fun (k, rest) => ((left, .union sofar k), rest) := by
        unfold classStep?
        split
        · exact absurd ‹_› (hopen _)
        · rw [hop]
      dsimp only
      rw [if_neg hc, hstep]
      cases classRange? f (c :: rest) <;> rfl

def negation (f : Flags) (cs : List Char) : Bool × List Char :=
  match skipBlanks f cs with
  | [] => (false, [])
  | c :: rest => if c = '^' then (true, skipBlanks f rest) else (false, c :: rest)

theorem negation_eq (f : Flags) (cs : List Char) : negation f cs = match skipBlanks f cs with
    | '^' :: rest => (true, skipBlanks f rest)
    | _ => (false, skipBlanks f cs) := by
  unfold negation
  generalize skipBlanks f cs = r
  cases r with
  | nil => rfl
  | cons c r =>
    by_cases hc : c = '^'
    · subst hc
      rfl
    · simp [hc]

/-- A set after its opening bracket and the sign that negates it. -/
def bracketedFrom? (f : Flags) (fuel : Nat) (negated : Bool) (cs : List Char) : Option (CharClass × List Char) :=
  if negated && !f.unicode then none
  else (match fuel with
    | 0 => none
    | n + 1 => classBody f n none (classHead f cs).1 (classHead f cs).2).bind fun (k, rest) =>
      some (if negated then .compl k else k, rest)

theorem bracketed_eq (f : Flags) (n : Nat) (cs : List Char) :
    classBody.bracketed f n cs = bracketedFrom? f n (negation f cs).1 (negation f cs).2 := by
  rw [classBody.bracketed.eq_def, negation_eq]
  cases n <;> rfl

theorem negation_suffix_skipBlanks (f : Flags) (cs : List Char) : (negation f cs).2 <:+ skipBlanks f cs := by
  unfold negation
  split
  · rename_i h
    exact h ▸ List.suffix_rfl
  · rename_i c rest h
    split
    · exact (skipBlanks_suffix f rest).1.trans (h ▸ List.suffix_cons c rest)
    · exact h ▸ List.suffix_rfl

theorem negation_suffix (f : Flags) (cs : List Char) : (negation f cs).2 <:+ cs :=
  (negation_suffix_skipBlanks f cs).trans (skipBlanks_suffix f cs).1

theorem negation_swap (ht : Stop t) (ht' : Stop t') {negated : Bool} (hrest : rest ≠ [])
    (h : negation f (w ++ t) = (negated, rest ++ t)) : negation f (w ++ t') = (negated, rest ++ t') := by
  have hskip : rest ++ t <:+ skipBlanks f (w ++ t) := by
    have hsuffix := negation_suffix_skipBlanks f (w ++ t)
    rwa [h] at hsuffix
  obtain ⟨c, v, hv⟩ := exists_skipBlanks_eq ht (.of_ne_nil hrest hskip)
  unfold negation at h ⊢
  rw [hv t ht] at h
  rw [hv t' ht']
  dsimp only at h ⊢
  split_ifs at h ⊢
  · obtain ⟨rfl, hnext⟩ := Prod.mk.inj h
    exact congrArg _ ((skipBlanks_swap ht ht' (.inl hrest)).1 hnext)
  · exact Option.some.inj (some_swap (w := c :: v) (congrArg some h))

theorem classHead_eq (f : Flags) (cs : List Char) : classHead f cs =
    if (cs.takeWhile (· == '-')).isEmpty then
      match skipBlanks f (cs.dropWhile (· == '-')) with
      | [] => (.none, [])
      | c :: rest => if c = ']' then (cased f (one ']'), rest) else (.none, c :: rest)
    else (one '-', skipBlanks f (cs.dropWhile (· == '-'))) := by
  unfold classHead
  dsimp only
  generalize skipBlanks f (cs.dropWhile (· == '-')) = r
  split
  · cases r with
    | nil => rfl
    | cons c r =>
      by_cases hc : c = ']'
      · subst hc
        rfl
      · simp [hc]
  · rfl

theorem classHead_suffix_skipBlanks (f : Flags) (cs : List Char) :
    (classHead f cs).2 <:+ skipBlanks f (cs.dropWhile (· == '-')) := by
  rw [classHead_eq]
  split
  · split
    · rename_i h
      exact h ▸ List.suffix_rfl
    · rename_i c rest h
      split
      · exact h ▸ List.suffix_cons c rest
      · exact h ▸ List.suffix_rfl
  · exact List.suffix_rfl

theorem classHead_suffix (f : Flags) (cs : List Char) : (classHead f cs).2 <:+ cs :=
  (classHead_suffix_skipBlanks f cs).trans ((skipBlanks_suffix f _).1.trans (List.dropWhile_suffix _))

theorem classHead_swap (ht : Stop t) (ht' : Stop t') {k : CharClass} (hrest : rest ≠ [])
    (h : classHead f (w ++ t) = (k, rest ++ t)) : classHead f (w ++ t') = (k, rest ++ t') := by
  have hhyphen : (fun c : Char => c == '-') ')' = false := rfl
  have hskip : rest ++ t <:+ skipBlanks f (w.dropWhile (· == '-') ++ t) := by
    have hsuffix := classHead_suffix_skipBlanks f (w ++ t)
    rwa [h, ht.dropWhile_append hhyphen] at hsuffix
  obtain ⟨c, v, hv⟩ := exists_skipBlanks_eq ht (.of_ne_nil hrest hskip)
  rw [classHead_eq, ht.takeWhile_append hhyphen, ht.dropWhile_append hhyphen, hv t ht] at h
  rw [classHead_eq, ht'.takeWhile_append hhyphen, ht'.dropWhile_append hhyphen, hv t' ht']
  dsimp only at h ⊢
  split_ifs at h ⊢
  · exact Option.some.inj (some_swap (w := v) (congrArg some h))
  · exact Option.some.inj (some_swap (w := c :: v) (congrArg some h))
  · exact Option.some.inj (some_swap (w := c :: v) (congrArg some h))

theorem classStep?_of_ne {n : Nat} {left : Option (SetOp × CharClass)} {sofar : CharClass} {c : Char} (hc : c ≠ '[') :
    classStep? f n left sofar (c :: cs) = match setOp? (c :: cs) with
      | some (op, rest) => some ((some (op, joined left sofar), .none), rest)
      | none => (classRange? f (c :: cs)).map fun (k, rest) => ((left, .union sofar k), rest) := by
  unfold classStep?
  split
  · simp_all
  · rfl

theorem classStep?_behind {n : Nat} {left : Option (SetOp × CharClass)} {sofar : CharClass}
    {x : Option (SetOp × CharClass) × CharClass}
    (hbracketed : ∀ cs k rest, classBody.bracketed f n cs = some (k, rest) → Behind rest cs)
    (h : classStep? f n left sofar cs = some (x, rest)) : Behind rest cs := by
  unfold classStep? at h
  split at h
  · split at h
    · rename_i hitem
      cases h
      exact .cons (asciiItem?_suffix hitem)
    · obtain ⟨⟨k, left⟩, hset, heq⟩ := Option.map_eq_some_iff.mp h
      cases heq
      exact .cons (hbracketed _ _ _ hset).suffix
  · split at h
    · rename_i hop
      cases h
      cases cs with
      | nil => cases hop
      | cons c cs => exact .cons (setOp?_suffix hop)
    · obtain ⟨⟨k, left⟩, hrange, heq⟩ := Option.map_eq_some_iff.mp h
      cases heq
      exact classRange?_behind hrange

theorem classBody_behind (f : Flags) (n : Nat) :
    (∀ left sofar cs k rest, classBody f n left sofar cs = some (k, rest) → Behind rest (skipBlanks f cs)) ∧
      ∀ cs k rest, classBody.bracketed f n cs = some (k, rest) → Behind rest cs := by
  induction n with
  | zero =>
    constructor
    · intro left sofar cs k rest h
      cases h
    · intro cs k rest h
      rw [bracketed_eq, bracketedFrom?] at h
      split at h <;> cases h
  | succ n ih =>
    constructor
    · intro left sofar cs k rest h
      rw [classBody_succ] at h
      split at h
      · cases h
      · rename_i c v hskip
        rw [hskip]
        split at h
        · cases h
          exact .cons List.suffix_rfl
        · obtain ⟨⟨x, left⟩, hstep, hbody⟩ := Option.bind_eq_some_iff.mp h
          exact .suffix_trans ((ih.1 _ _ _ _ _ hbody).suffix.trans (skipBlanks_suffix f left).1)
            (classStep?_behind ih.2 hstep)
    · intro cs k rest h
      rw [bracketed_eq, bracketedFrom?] at h
      split at h
      · cases h
      · obtain ⟨⟨k, left⟩, hbody, heq⟩ := Option.bind_eq_some_iff.mp h
        cases heq
        exact (ih.1 _ _ _ _ _ hbody).trans_suffix
          ((skipBlanks_suffix f _).1.trans ((classHead_suffix f _).trans (negation_suffix f cs)))

/-- A hyphen at the start is an item or half an operator, and blanks and comments behind it are skipped. -/
theorem classBody_hyphen {n : Nat} {left : Option (SetOp × CharClass)} {sofar k : CharClass}
    (h : classBody f n left sofar ('-' :: cs) = some (k, rest)) : rest <:+ skipBlanks f cs := by
  have hskip (cs : List Char) : skipBlanks f ('-' :: cs) = '-' :: cs := by
    have hblank : Text.isBlank '-' = false := by decide
    simp [skipBlanks, hblank]
  cases n with
  | zero => cases h
  | succ n =>
    rw [classBody_succ, hskip] at h
    obtain ⟨⟨x, left'⟩, hstep, hbody⟩ := Option.bind_eq_some_iff.mp h
    have hrest : rest <:+ left' := ((classBody_behind f n).1 _ _ _ _ _ hbody).suffix.trans (skipBlanks_suffix f left').1
    refine hrest.trans ?_
    rw [classStep?_of_ne (by decide)] at hstep
    split at hstep
    · rename_i hop
      cases hstep
      cases cs with
      | nil => cases hop
      | cons d cs =>
        obtain ⟨op, hd, heq⟩ := Option.map_eq_some_iff.mp hop
        cases heq
        have hd : d = '-' := by
          unfold opOf? at hd
          split at hd <;> simp_all
        subst hd
        rw [hskip]
        exact List.suffix_cons '-' left'
    · obtain ⟨⟨k, left⟩, hrange, heq⟩ := Option.map_eq_some_iff.mp hstep
      cases heq
      have hfrom : rangeFrom? f (.inl '-') cs = some (k, left') := hrange
      exact rangeFrom?_suffix hfrom

theorem classRange?_swap (ht : Stop t) (ht' : Stop t') {k : CharClass} (hrest : rest ≠ [])
    (hhyphen : ∀ v, rest = '-' :: v → t <:+ skipBlanks f (v ++ t))
    (h : classRange? f (w ++ t) = some (k, rest ++ t)) : classRange? f (w ++ t') = some (k, rest ++ t') := by
  rw [classRange?_eq] at h ⊢
  obtain ⟨⟨item, left⟩, hitem, h⟩ := Option.bind_eq_some_iff.mp h
  obtain ⟨v, rfl⟩ := (rangeFrom?_suffix h).trans (skipBlanks_suffix f left).1
  rw [← List.append_assoc] at hitem h
  exact Option.bind_eq_some_iff.mpr
    ⟨_, (steady_classItem? f).swap ht ht' trivial hitem, rangeFrom?_swap ht ht' hrest hhyphen h⟩

theorem classStep?_swap (ht : Stop t) (ht' : Stop t') {n m : Nat} {left : Option (SetOp × CharClass)}
    {sofar : CharClass} {c : Char} {x : Option (SetOp × CharClass) × CharClass}
    (hbracketed : ∀ k, classBody.bracketed f n (w ++ t) = some (k, rest ++ t) →
      classBody.bracketed f m (w ++ t') = some (k, rest ++ t'))
    (hrest : rest ≠ []) (hhyphen : ∀ v, rest = '-' :: v → t <:+ skipBlanks f (v ++ t))
    (h : classStep? f n left sofar (c :: (w ++ t)) = some (x, rest ++ t)) :
    classStep? f m left sofar (c :: (w ++ t')) = some (x, rest ++ t') := by
  by_cases hc : c = '['
  · subst hc
    simp only [classStep?] at h ⊢
    rcases asciiItem?_cases f w with ⟨k, v, hitem⟩ | hitem
    · rw [hitem t ht] at h
      rw [hitem t' ht']
      exact some_swap h
    · rw [hitem t ht] at h
      rw [hitem t' ht']
      obtain ⟨⟨k, left⟩, hset, heq⟩ := Option.map_eq_some_iff.mp h
      obtain ⟨rfl, rfl⟩ := Prod.mk.inj heq
      exact Option.map_eq_some_iff.mpr ⟨_, hbracketed k hset, rfl⟩
  · rw [classStep?_of_ne hc] at h ⊢
    rcases setOp?_cases c w with ⟨op, v, hop⟩ | hop
    · rw [hop t ht] at h
      rw [hop t' ht']
      exact some_swap h
    · rw [hop t ht] at h
      rw [hop t' ht']
      obtain ⟨⟨k, left⟩, hrange, heq⟩ := Option.map_eq_some_iff.mp h
      obtain ⟨rfl, rfl⟩ := Prod.mk.inj heq
      exact Option.map_eq_some_iff.mpr ⟨_, classRange?_swap (w := c :: w) ht ht' hrest hhyphen hrange, rfl⟩

/-- What the set of `n` in front of one stop is, the set of `m` is in front of the other, given enough fuel for its
characters. -/
def BodySwaps (f : Flags) (t t' : List Char) (n m : Nat) : Prop :=
  ∀ {left sofar w rest k}, classBody f n left sofar (w ++ t) = some (k, rest ++ t) → w.length ≤ m + rest.length →
    classBody f m left sofar (w ++ t') = some (k, rest ++ t')

/-- Brackets around a set are read in front of a stop if the set is. -/
theorem bracketed_swap (ht : Stop t) (ht' : Stop t') {n m : Nat} {k : CharClass} (hswaps : BodySwaps f t t' n m)
    (h : classBody.bracketed f (n + 1) (w ++ t) = some (k, rest ++ t)) (hm : w.length ≤ m + rest.length) :
    classBody.bracketed f (m + 1) (w ++ t') = some (k, rest ++ t') := by
  rw [bracketed_eq, bracketedFrom?] at h ⊢
  split at h
  · cases h
  · rename_i hunicode
    obtain ⟨⟨k, left⟩, hbody, heq⟩ := Option.bind_eq_some_iff.mp h
    obtain ⟨rfl, rfl⟩ := Prod.mk.inj (Option.some.inj heq)
    -- What stands behind the sign, and behind the first characters of the set, reaches to the stop as well.
    have hitems := ((classBody_behind f n).1 _ _ _ _ _ hbody).trans_suffix (skipBlanks_suffix f _).1
    obtain ⟨c, v, hv⟩ := (hitems.trans_suffix (classHead_suffix f _)).exists_cons
    have hnegation : negation f (w ++ t) = ((negation f (w ++ t)).1, c :: v ++ t) := Prod.ext rfl hv
    have hwlength := (negation_suffix f (w ++ t)).length_le
    generalize (negation f (w ++ t)).1 = negated at hnegation hunicode
    rw [hnegation] at hbody hitems hwlength
    obtain ⟨d, u, hu⟩ := hitems.exists_cons
    have hstart : classHead f (c :: v ++ t) = ((classHead f (c :: v ++ t)).1, d :: u ++ t) := Prod.ext rfl hu
    have hvlength := (classHead_suffix f (c :: v ++ t)).length_le
    generalize (classHead f (c :: v ++ t)).1 = start at hstart
    rw [hstart] at hbody hvlength
    rw [negation_swap ht ht' (List.cons_ne_nil c v) hnegation]
    dsimp only at hbody hvlength hwlength ⊢
    rw [if_neg hunicode, classHead_swap ht ht' (List.cons_ne_nil d u) hstart]
    simp only [List.length_append, List.length_cons] at hvlength hwlength
    have hbody' : classBody f m none start (d :: u ++ t') = some (k, rest ++ t') :=
      hswaps (w := d :: u) hbody (by rw [List.length_cons]; omega)
    exact Option.bind_eq_some_iff.mpr ⟨_, hbody', rfl⟩

/-- A set that closes before a stop is the same set before any other stop. -/
theorem classBody_swap (ht : Stop t) (ht' : Stop t') (n : Nat) : (∀ m, BodySwaps f t t' n m) ∧
    ∀ {m w rest k}, classBody.bracketed f n (w ++ t) = some (k, rest ++ t) → w.length < m + rest.length →
      classBody.bracketed f m (w ++ t') = some (k, rest ++ t') := by
  induction n with
  | zero =>
    constructor
    · intro m left sofar w rest k h
      cases h
    · intro m w rest k h
      rw [bracketed_eq, bracketedFrom?] at h
      split at h <;> cases h
  | succ n ih =>
    constructor
    · intro m left sofar w rest k h hm
      have hbehind := (classBody_behind f (n + 1)).1 _ _ _ _ _ h
      obtain ⟨c, v, hv⟩ := exists_skipBlanks_eq ht hbehind.drop_append
      have hvw : (v ++ t).length < (w ++ t).length := (hv t ht ▸ (skipBlanks_suffix f (w ++ t)).1).length_le
      rw [hv t ht] at hbehind
      have hlt := hbehind.lt
      simp only [List.length_append, List.length_cons] at hvw hlt
      obtain ⟨m, rfl⟩ : ∃ m', m = m' + 1 := ⟨m - 1, by omega⟩
      rw [classBody_succ, hv t ht] at h
      rw [classBody_succ, hv t' ht']
      dsimp only at h ⊢
      split_ifs at h ⊢
      · exact some_swap h
      · obtain ⟨⟨x, left'⟩, hstep, hbody⟩ := Option.bind_eq_some_iff.mp h
        have hleft := ((classBody_behind f n).1 _ _ _ _ _ hbody).trans_suffix (skipBlanks_suffix f left').1
        obtain ⟨d, u, rfl⟩ := hleft.exists_cons
        have hulength := hleft.lt
        have hvlength := (classStep?_behind (classBody_behind f n).2 hstep).lt
        simp only [List.length_append, List.length_cons] at hulength hvlength
        have hhyphen (y : List Char) (hy : d :: u = '-' :: y) : t <:+ skipBlanks f (y ++ t) := by
          cases hy
          exact (List.suffix_append rest t).trans (classBody_hyphen hbody)
        have hset (k : CharClass) (h : classBody.bracketed f n (v ++ t) = some (k, d :: u ++ t)) :
            classBody.bracketed f m (v ++ t') = some (k, d :: u ++ t') :=
          ih.2 h (by rw [List.length_cons]; omega)
        have hstep' := classStep?_swap ht ht' hset (List.cons_ne_nil d u) hhyphen hstep
        have hbody' : classBody f m x.1 x.2 (d :: u ++ t') = some (k, rest ++ t') :=
          ih.1 m (w := d :: u) hbody (by rw [List.length_cons]; omega)
        exact Option.bind_eq_some_iff.mpr ⟨_, hstep', hbody'⟩
    · intro m w rest k h hm
      have hlt := ((classBody_behind f (n + 1)).2 _ _ _ h).lt
      simp only [List.length_append] at hlt
      obtain ⟨m, rfl⟩ : ∃ m', m = m' + 1 := ⟨m - 1, by omega⟩
      exact bracketed_swap ht ht' (ih.1 m) h (by omega)

end Regex
end Transclusion
