import Transclusion.Proofs.Patterns.Sets

/-!
# Where groups stop

* `Regex.steady_openingOf` : how a parenthesis goes on is read in front of a stop;
* `Regex.quantified_swap` : so are the signs for repetition, unless a comment is open at the end of the text;
* `Regex.alternatives_succ` : alternatives, piece by piece; `Regex.alternatives_suffix` : they end at a stop;
* `Regex.alternatives_swap` : they are the same in front of every stop, but for an open comment.
-/

namespace Transclusion
namespace Regex

variable {t t' w rest cs : List Char} {f : Flags}

/-! ## Openings -/

/-- The switches in front of a colon or a parenthesis, with the letters that set them. -/
def switchesOf (f : Flags) (seen : List Char) (on : Bool) (cs : List Char) :
    Option ((Flags × List Char × Char) × List Char) :=
  (switches f seen on cs).map fun (f, seen, last, rest) => ((f, seen, last), rest)

theorem switchesOf_cons (f : Flags) (seen : List Char) (on : Bool) (c : Char) (cs : List Char) :
    switchesOf f seen on (c :: cs) =
      if c == ':' || c == ')' then if seen.head? == some '-' then none else some ((f, seen, c), cs)
      else if seen.contains c then none
      else if c == '-' then switchesOf f (c :: seen) false cs
      else (f.set? c on).bind fun f => switchesOf f (c :: seen) on cs := by
  rw [switchesOf, switches]
  split_ifs
  · rfl
  · rfl
  · rfl
  · rfl
  · cases f.set? c on <;> rfl

theorem switchesOf_behind {seen : List Char} {on : Bool} {x : Flags × List Char × Char}
    (h : switchesOf f seen on cs = some (x, rest)) : Behind rest cs := by
  induction cs generalizing f seen on with
  | nil => cases h
  | cons c cs ih =>
    rw [switchesOf_cons] at h
    split_ifs at h
    · cases h
      exact .cons List.suffix_rfl
    · exact .cons (ih h).suffix
    · obtain ⟨g, -, h⟩ := Option.bind_eq_some_iff.mp h
      exact .cons (ih h).suffix

theorem steady_switchesOf (f : Flags) (seen : List Char) (on : Bool) :
    Steady (fun _ _ => True) (switchesOf f seen on) where
  suffix h := (switchesOf_behind h).suffix
  swap {t t' w rest x} ht ht' _ h := by
    induction w generalizing f seen on with
    | nil =>
      have hlt := (switchesOf_behind h).lt
      rw [List.nil_append, List.length_append] at hlt
      omega
    | cons c w ih =>
      rw [List.cons_append, switchesOf_cons] at h ⊢
      split_ifs at h ⊢
      · exact some_swap h
      · exact ih _ _ _ h
      · obtain ⟨g, hg, h⟩ := Option.bind_eq_some_iff.mp h
        exact Option.bind_eq_some_iff.mpr ⟨g, hg, ih _ _ _ h⟩

def startsName (c : Char) : Bool := c == '_' || Text.isLetter c

def inName (c : Char) : Bool := startsName c || Text.isLetterOrNumber c || c == '.' || c == '[' || c == ']'

def nameOf? (name : List Char) : Option String :=
  match name with
  | c :: more => if startsName c && more.all inName then some (String.ofList name) else none
  | [] => none

theorem paren_not_mem_of_nameOf? {name : List Char} {n : String} (h : nameOf? name = some n) : ')' ∉ name := by
  have hname : inName ')' = false := by decide +kernel
  unfold nameOf? at h
  split at h
  · rename_i c more
    split at h
    · rename_i hparts
      obtain ⟨hc, hmore⟩ := Bool.and_eq_true_iff.mp hparts
      rintro (_ | ⟨_, hmem⟩)
      · revert hc
        decide +kernel
      · rw [List.all_eq_true.mp hmore _ hmem] at hname
        cases hname
    · cases h
  · cases h

theorem groupName?_eq : groupName? = fun cs => match cs.dropWhile (· != '>') with
    | _ :: after => (nameOf? (cs.takeWhile (· != '>'))).map fun n => (n, after)
    | [] => none := by
  funext cs
  unfold groupName? nameOf?
  dsimp only
  generalize cs.takeWhile (· != '>') = name
  generalize cs.dropWhile (· != '>') = left
  cases name with
  | nil => cases left <;> rfl
  | cons c more =>
    cases left with
    | nil => rfl
    | cons d left =>
      dsimp only
      change (if startsName c && more.all inName then _ else _) = _
      split <;> rfl

theorem steady_groupName? : Steady (fun _ _ => True) groupName? := by
  rw [groupName?_eq]
  exact .closed (p := (· != '>')) (g := nameOf?) rfl fun _ _ => paren_not_mem_of_nameOf?

theorem groupName?_of_not_start {c : Char} (hc : startsName c = false) (hclose : c ≠ '>') :
    groupName? (c :: cs) = none := by
  rw [groupName?_eq]
  dsimp only
  split
  · simp [hclose, nameOf?, hc]
  · rfl

/-- How a parenthesis goes on, apart from what follows. -/
def Opening.split : Opening → (Context ⊕ Flags) × List Char
  | .group x rest => (.inl x, rest)
  | .flags f rest => (.inr f, rest)

def openingOf (x : Context) (cs : List Char) : Option ((Context ⊕ Flags) × List Char) :=
  (opening? x cs).map Opening.split

def groupNamed? (x : Context) (name : String) : Option (Context ⊕ Flags) :=
  if x.names.contains name then none else some (.inl { x with names := name :: x.names })

/-- A group with switches, or switches for what follows. -/
def groupSwitched? (x : Context) : Flags × List Char × Char → Option (Context ⊕ Flags)
  | (f, seen, last) =>
    if last == ':' then some (.inl { x with flags := f }) else if seen.isEmpty then none else some (.inr f)

def named? (x : Context) (cs : List Char) : Option ((Context ⊕ Flags) × List Char) :=
  (groupName? cs).bind fun (name, rest) => (groupNamed? x name).map fun o => (o, rest)

def switched? (x : Context) (cs : List Char) : Option ((Context ⊕ Flags) × List Char) :=
  (switchesOf x.flags [] true cs).bind fun (s, rest) => (groupSwitched? x s).map fun o => (o, rest)

theorem steady_named? (x : Context) : Steady (fun _ _ => True) (named? x) :=
  steady_groupName?.filterMap (groupNamed? x) fun _ _ _ _ _ => trivial

theorem steady_switched? (x : Context) : Steady (fun _ _ => True) (switched? x) :=
  (steady_switchesOf x.flags [] true).filterMap (groupSwitched? x) fun _ _ _ _ _ => trivial

theorem map_split_named (x : Context) (cs : List Char) : (opening?.named x cs).map Opening.split = named? x cs := by
  unfold opening?.named named? groupNamed?
  rcases groupName? cs with _ | ⟨name, rest⟩
  · rfl
  · change Option.map Opening.split (if _ then _ else _) = Option.map _ (if _ then _ else _)
    split <;> rfl

theorem map_split_switched (x : Context) (cs : List Char) : (do
    let (f, seen, last, rest) ← switches x.flags [] true cs
    if last == ':' then return .group { x with flags := f } rest
    else if seen.isEmpty then none
    else return .flags f rest : Option Opening).map Opening.split = switched? x cs := by
  unfold switched? switchesOf groupSwitched?
  rcases switches x.flags [] true cs with _ | ⟨f, seen, last, rest⟩
  · rfl
  · change Option.map Opening.split (if _ then _ else if _ then _ else _) =
      Option.map _ (if _ then _ else if _ then _ else _)
    split
    · rfl
    · split <;> rfl

theorem openingOf_python (x : Context) (cs : List Char) : openingOf x ('?' :: 'P' :: '<' :: cs) = named? x cs :=
  map_split_named x cs

/-- An equals sign or an exclamation mark begins no name, so that they need not be looked at. -/
theorem openingOf_angle (x : Context) (cs : List Char) : openingOf x ('?' :: '<' :: cs) = named? x cs := by
  have hnone {c : Char} (cs : List Char) (hc : startsName c = false) (hclose : c ≠ '>') : named? x (c :: cs) = none := by
    rw [named?, groupName?_of_not_start hc hclose]
    rfl
  cases cs with
  | nil => exact map_split_named x []
  | cons c cs =>
    by_cases hequals : c = '='
    · subst hequals
      exact (hnone cs (by decide +kernel) (by decide)).symm
    · by_cases hexclamation : c = '!'
      · subst hexclamation
        exact (hnone cs (by decide +kernel) (by decide)).symm
      · have hopen : opening? x ('?' :: '<' :: c :: cs) = opening?.named x (c :: cs) := by
          simp [opening?, hequals, hexclamation]
        rw [openingOf, hopen, map_split_named]

theorem openingOf_switched (x : Context) (hangle : ∀ v, cs ≠ '<' :: v) (hpython : ∀ v, cs ≠ 'P' :: '<' :: v) :
    openingOf x ('?' :: cs) = switched? x cs := by
  rw [openingOf, ← map_split_switched, opening?]
  · exact fun v hv => hpython v hv
  · exact fun v hv => hangle v hv

theorem openingOf_group (x : Context) (hmark : ∀ v, cs ≠ '?' :: v) : openingOf x cs = some (.inl x, cs) := by
  rw [openingOf, opening?]
  · rfl
  · exact fun v => hmark _
  · exact fun v => hmark _
  · exact fun v => hmark _

theorem switched?_of_not_switch (x : Context) (cs : List Char) : switched? x ('P' :: cs) = none := by
  rw [switched?, switchesOf_cons]
  rfl

def marked? (x : Context) (cs : List Char) : Option ((Context ⊕ Flags) × List Char) :=
  match cs with
  | 'P' :: cs => openingOf x ('?' :: 'P' :: cs)
  | cs => switched? x cs

theorem steady_marked? (x : Context) : Steady (fun _ _ => True) (marked? x) := by
  have hangle : Steady (fun _ _ => True) fun cs => openingOf x ('?' :: 'P' :: '<' :: cs) := by
    simpa only [openingOf_python] using steady_named? x
  have hpython : Steady (fun _ _ => True) fun cs => openingOf x ('?' :: 'P' :: cs) := by
    refine .ofHead (c := '<') (by decide) hangle (.option none) fun cs hcs => ?_
    rw [openingOf_switched x (by simp) (by simpa using hcs), switched?_of_not_switch]
    rfl
  refine .ofHead (c := 'P') (by decide) hpython (steady_switched? x) fun cs hcs => ?_
  unfold marked?
  split
  · exact absurd rfl (hcs _)
  · rfl

/-- How a parenthesis goes on is read in front of a stop. -/
theorem steady_openingOf (x : Context) : Steady (fun _ _ => True) (openingOf x) := by
  have hangle : Steady (fun _ _ => True) fun cs => openingOf x ('?' :: '<' :: cs) := by
    simpa only [openingOf_angle] using steady_named? x
  have hmark : Steady (fun _ _ => True) fun cs => openingOf x ('?' :: cs) := by
    refine .ofHead (c := '<') (by decide) hangle (steady_marked? x) fun cs hcs => ?_
    unfold marked?
    split
    · rfl
    · rename_i hP
      exact openingOf_switched x hcs fun v hv => hP _ hv
  refine .ofHead (c := '?') (by decide) hmark (.option (some (.inl x))) fun cs hcs => ?_
  rw [openingOf_group x hcs]
  rfl

/-! ## Repetition -/

/-- A stop in place of another one. At the end of a text a comment may be open, so that nothing but one parenthesis can
come there instead. -/
def InPlaceOf (t' t : List Char) : Prop := Stop t' ∧ (t = [] → t' = [] ∨ t' = [')'])

theorem InPlaceOf.of_last (ht' : t' = [] ∨ t' = [')']) : InPlaceOf t' t := by
  refine ⟨?_, fun _ => ht'⟩
  rcases ht' with rfl | rfl
  · exact .nil
  · exact .paren []

theorem InPlaceOf.of_paren {u : List Char} (ht' : Stop t') : InPlaceOf t' (')' :: u) := ⟨ht', nofun⟩

/-- In front of a stop blanks are skipped to the same place, unless a comment is open at the end of the text. -/
theorem skipBlanks_cases (ht : Stop t) (ht' : InPlaceOf t' t) (h : skipBlanks f (w ++ t) = rest ++ t) :
    skipBlanks f (w ++ t') = rest ++ t' ∨ (t = [] ∧ rest = [] ∧ skipBlanks f (w ++ t') = []) := by
  have hstop := ht'.1
  by_cases hne : rest ≠ [] ∨ t ≠ []
  · exact .inl ((skipBlanks_swap ht hstop hne).1 h)
  · rw [not_or, Classical.not_not, Classical.not_not] at hne
    obtain ⟨rfl, rfl⟩ := hne
    rw [List.append_nil, List.append_nil] at h
    rcases ht'.2 rfl with rfl | rfl
    · exact .inl (by rwa [List.append_nil])
    · exact ((skipBlanks_concat f w).1 h).imp_right fun h => ⟨rfl, rfl, h⟩

/-- A question mark changes nothing after a sign for repetition. -/
def afterLazy (cs : List Char) : List Char :=
  match cs with
  | '?' :: rest => rest
  | _ => cs

theorem afterLazy_suffix (cs : List Char) : afterLazy cs <:+ cs := by
  unfold afterLazy
  split
  · exact List.suffix_cons '?' _
  · exact List.suffix_rfl

theorem afterLazy_append (w : List Char) : ∃ v, v <:+ w ∧ ∀ t, Stop t → afterLazy (w ++ t) = v ++ t := by
  cases w with
  | nil =>
    refine ⟨[], List.suffix_rfl, fun t ht => ?_⟩
    cases ht <;> rfl
  | cons c w =>
    by_cases hc : c = '?'
    · subst hc
      exact ⟨w, List.suffix_cons '?' w, fun t _ => rfl⟩
    · refine ⟨c :: w, List.suffix_rfl, fun t _ => ?_⟩
      simp [afterLazy, hc]

def quantifier? (f : Flags) (r : Regex) (c : Char) (cs : List Char) : Option (Regex × List Char) :=
  match c with
  | '*' => some (.star r, cs)
  | '+' => some (.seq r (.star r), cs)
  | '?' => some (.alt r .nothing, cs)
  | '\x7b' => (bounds? f cs).bind fun ((least, most), rest) => (repeated? r least most).map (·, rest)
  | _ => none

def isSign (c : Char) : Bool := "*+?\x7b".toList.contains c

theorem steady_quantifier? (f : Flags) (r : Regex) (c : Char) : Steady (fun _ _ => True) (quantifier? f r c) := by
  unfold quantifier?
  split
  · exact .option (some _)
  · exact .option (some _)
  · exact .option (some _)
  · exact (steady_bounds? f).filterMap (fun (least, most) => repeated? r least most) fun _ _ _ _ _ => trivial
  · exact .option none

theorem quantified_succ (f : Flags) (n : Nat) (r : Regex) (cs : List Char) : quantified f (n + 1) r cs =
    match skipBlanks f cs with
    | [] => some (r, [])
    | c :: rest =>
      if isSign c then (quantifier? f r c rest).bind fun (r, rest) => quantified f n r (afterLazy rest)
      else some (r, c :: rest) := by
  rw [quantified]
  generalize skipBlanks f cs = left
  dsimp only
  split
  · rfl
  · rfl
  · rfl
  · rename_i rest
    have hquantifier : quantifier? f r '\x7b' rest = (bounds? f rest).bind fun ((least, most), rest) =>
        (repeated? r least most).map (·, rest) := rfl
    dsimp only
    rw [if_pos (by decide), hquantifier]
    cases bounds? f rest with
    | none => rfl
    | some b =>
      obtain ⟨⟨least, most⟩, rest⟩ := b
      change (repeated? r least most).bind _ = ((repeated? r least most).map _).bind _
      cases repeated? r least most <;> rfl
  · rename_i hstar hplus hmark hbrace
    cases left with
    | nil => rfl
    | cons c rest =>
      have hc : isSign c = false := by
        have hsigns : "*+?\x7b".toList = ['*', '+', '?', '\x7b'] := rfl
        rw [isSign, hsigns, List.contains_eq_mem, decide_eq_false_iff_not]
        rintro hmem
        simp only [List.mem_cons, List.not_mem_nil, or_false] at hmem
        rcases hmem with rfl | rfl | rfl | rfl
        · exact hstar rest rfl
        · exact hplus rest rfl
        · exact hmark rest rfl
        · exact hbrace rest rfl
      simp [hc]

theorem quantified_suffix {n : Nat} {r r' : Regex} (h : quantified f n r cs = some (r', rest)) :
    rest <:+ skipBlanks f cs := by
  induction n generalizing r cs with
  | zero => cases h
  | succ n ih =>
    rw [quantified_succ] at h
    split at h
    · cases h
      exact List.nil_suffix
    · rename_i c left hskip
      rw [hskip]
      split at h
      · obtain ⟨⟨s, after⟩, hsign, h⟩ := Option.bind_eq_some_iff.mp h
        exact (ih h).trans ((skipBlanks_suffix f _).1.trans ((afterLazy_suffix after).trans
          (((steady_quantifier? f r c).suffix hsign).trans (List.suffix_cons c left))))
      · cases h
        exact List.suffix_rfl

/-- An opening brace in front of a stop is no number of times. -/
theorem quantified_brace (ht : Stop t) (n : Nat) (r : Regex) : quantified f n r ('\x7b' :: t) = none := by
  cases n with
  | zero => rfl
  | succ n =>
    have hblank : Text.isBlank '\x7b' = false := by decide
    have hskip : skipBlanks f ('\x7b' :: t) = '\x7b' :: t := by simp [skipBlanks, hblank]
    have hnone : quantifier? f r '\x7b' t = none := by rw [quantifier?, bounds?_stop ht]; rfl
    rw [quantified_succ, hskip]
    dsimp only
    rw [if_pos (by decide), hnone]
    rfl

theorem quantified_stop (ht : Stop t) (n : Nat) (r : Regex) (hskip : skipBlanks f cs = t) :
    quantified f (n + 1) r cs = some (r, t) := by
  rw [quantified_succ, hskip]
  cases ht <;> rfl

theorem quantified_swap (ht : Stop t) (ht' : InPlaceOf t' t) {n m : Nat} {r r' : Regex}
    (h : quantified f n r (w ++ t) = some (r', rest ++ t)) (hm : w.length < m + rest.length) :
    quantified f m r (w ++ t') = some (r', rest ++ t') ∨
      (t = [] ∧ rest = [] ∧ quantified f m r (w ++ t') = some (r', [])) := by
  have hstop := ht'.1
  induction n generalizing m r w with
  | zero => cases h
  | succ n ih =>
    have hrest := quantified_suffix h
    obtain ⟨v, hv⟩ : ∃ v, skipBlanks f (w ++ t) = v ++ t := by
      obtain ⟨v, hv⟩ := (List.suffix_append rest t).trans hrest
      exact ⟨v, hv.symm⟩
    have hvlength := hv ▸ (skipBlanks_suffix f (w ++ t)).1.length_le
    have hrlength := hv ▸ hrest.length_le
    simp only [List.length_append] at hvlength hrlength
    obtain ⟨m, rfl⟩ : ∃ m', m = m' + 1 := ⟨m - 1, by omega⟩
    -- An open comment is left to the end of the text, and with it the parenthesis that may come next.
    rcases skipBlanks_cases ht ht' hv with hv' | ⟨rfl, rfl, hv'⟩
    · cases v with
      | nil =>
        rw [quantified_stop ht n r hv] at h
        rw [quantified_stop hstop m r hv']
        exact .inl (some_swap (w := []) h)
      | cons c v =>
        rw [quantified_succ, hv] at h
        rw [quantified_succ, hv']
        dsimp only [List.cons_append] at h ⊢
        split_ifs at h ⊢
        · obtain ⟨⟨s, after⟩, hsign, h⟩ := Option.bind_eq_some_iff.mp h
          obtain ⟨u, rfl⟩ := (List.suffix_append rest t).trans ((quantified_suffix h).trans
            ((skipBlanks_suffix f _).1.trans (afterLazy_suffix after)))
          have hulength := ((steady_quantifier? f r c).suffix hsign).length_le
          obtain ⟨u', hu', hlazy⟩ := afterLazy_append u
          have hu'length := hu'.length_le
          simp only [List.length_append, List.length_cons] at hulength hvlength hrlength
          dsimp only at h
          rw [hlazy t ht] at h
          rw [(steady_quantifier? f r c).swap ht hstop trivial hsign]
          dsimp only [Option.bind_some]
          rw [hlazy t' hstop]
          exact ih h (by omega)
        · exact .inl (some_swap (w := c :: v) h)
    · rw [quantified_stop .nil n r hv] at h
      rw [quantified_stop .nil m r hv']
      obtain ⟨rfl, hnil⟩ := Prod.mk.inj (Option.some.inj h)
      exact .inr ⟨rfl, by simpa using hnil, rfl⟩

/-! ## Alternatives -/

def Escape.regex (f : Flags) : Escape → Regex
  | .char c => literal f c
  | .set k => .chars k
  | .check a => .check a

/-- A group behind its opening parenthesis, or switches. -/
def group? (n : Nat) (x : Context) (cs : List Char) : Option ((Regex × Context ⊕ Flags) × List Char) :=
  (openingOf x cs).bind fun (o, rest) => match o with
    | .inr f => some (.inr f, rest)
    | .inl inner => (alternatives n inner .never .nothing rest).bind fun (r, inner, rest) => match rest with
      | ')' :: rest => some (.inl (r, { x with names := inner.names }), rest)
      | _ => none

/-- A piece of an expression, and the names of groups that are known behind it; or switches. -/
def piece? (n : Nat) (x : Context) (c : Char) (cs : List Char) : Option ((Regex × Context ⊕ Flags) × List Char) :=
  match c with
  | '(' => group? n x cs
  | '[' => (classBody.bracketed x.flags (cs.length + 1) cs).map fun (k, rest) => (.inl (.chars k, x), rest)
  | '\\' => (escape? x.flags cs).map fun (e, rest) => (.inl (e.regex x.flags, x), rest)
  | '.' => (dot? x.flags).map fun r => (.inl (r, x), cs)
  | '^' => some (.inl (.check (startAnchor x.flags), x), cs)
  | '$' => some (.inl (.check (endAnchor x.flags), x), cs)
  | c => if isSign c then none else some (.inl (literal x.flags c, x), cs)

def behindPiece (n : Nat) (x : Context) (done sofar : Regex) :
    (Regex × Context ⊕ Flags) × List Char → Option (Regex × Context × List Char)
  | (.inr f, rest) => alternatives n { x with flags := f } done sofar rest
  | (.inl (r, y), rest) => (quantified x.flags (rest.length + 1) r rest).bind fun (r, rest) =>
    alternatives n y done (sofar.seq r) rest

theorem alternatives_succ (n : Nat) (x : Context) (done sofar : Regex) (cs : List Char) :
    alternatives (n + 1) x done sofar cs = match skipBlanks x.flags cs with
      | [] => some (.alt done sofar, x, [])
      | c :: rest =>
        if c = ')' then some (.alt done sofar, x, c :: rest)
        else if c = '|' then alternatives n x (.alt done sofar) .nothing rest
        else (piece? n x c rest).bind (behindPiece n x done sofar) := by
  rw [alternatives]
  generalize skipBlanks x.flags cs = left
  dsimp only
  split
  · rfl
  · rfl
  · rfl
  · rename_i rest
    dsimp only
    rw [if_neg (by decide), if_neg (by decide)]
    simp only [piece?, group?, openingOf]
    rcases opening? x rest with _ | ⟨inner, left⟩ | ⟨f, left⟩
    · rfl
    · change (alternatives n inner .never .nothing left).bind _ =
        ((alternatives n inner .never .nothing left).bind _).bind _
      rcases alternatives n inner .never .nothing left with _ | ⟨r, inner, _ | ⟨c, behind⟩⟩
      · rfl
      · rfl
      · by_cases hc : c = ')'
        · subst hc
          rfl
        · simp [hc]
    · rfl
  · rename_i rest
    simp only [piece?]
    cases classBody.bracketed x.flags (rest.length + 1) rest <;> rfl
  · rename_i rest
    simp only [piece?]
    rcases escape? x.flags rest with _ | ⟨_ | _ | _, _⟩ <;> rfl
  · simp only [piece?]
    cases dot? x.flags <;> rfl
  · rfl
  · rfl
  · rename_i c rest hclose halt hgroup hset hescape hdot hstart hend
    have hpiece : piece? n x c rest = if isSign c then none else some (.inl (literal x.flags c, x), rest) := by
      unfold piece?
      split
      · exact absurd rfl hgroup
      · exact absurd rfl hset
      · exact absurd rfl hescape
      · exact absurd rfl hdot
      · exact absurd rfl hstart
      · exact absurd rfl hend
      · rfl
    dsimp only
    rw [if_neg hclose, if_neg halt, hpiece]
    change (if isSign c then _ else _) = _
    split <;> rfl

section Suffix

variable {n : Nat} {x y : Context} {done sofar r : Regex} {c : Char} {p : Regex × Context ⊕ Flags}

theorem group?_suffix
    (hn : ∀ {x done sofar cs r y rest}, alternatives n x done sofar cs = some (r, y, rest) → rest <:+ cs)
    (h : group? n x cs = some (p, rest)) : rest <:+ cs := by
  obtain ⟨⟨o, left⟩, hopen, h⟩ := Option.bind_eq_some_iff.mp h
  refine .trans ?_ ((steady_openingOf x).suffix hopen)
  cases o with
  | inr f =>
    cases h
    exact List.suffix_rfl
  | inl inner =>
    obtain ⟨⟨r, inner, left'⟩, hinner, h⟩ := Option.bind_eq_some_iff.mp h
    dsimp only at h
    split at h
    · cases h
      exact (List.suffix_cons ')' rest).trans (hn hinner)
    · cases h

theorem piece?_suffix
    (hn : ∀ {x done sofar cs r y rest}, alternatives n x done sofar cs = some (r, y, rest) → rest <:+ cs)
    (h : piece? n x c cs = some (p, rest)) : rest <:+ cs := by
  unfold piece? at h
  split at h
  · exact group?_suffix hn h
  · obtain ⟨⟨k, left⟩, hset, heq⟩ := Option.map_eq_some_iff.mp h
    cases heq
    exact ((classBody_behind x.flags _).2 _ _ _ hset).suffix
  · obtain ⟨⟨e, left⟩, hescape, heq⟩ := Option.map_eq_some_iff.mp h
    cases heq
    exact (steady_escape? x.flags).suffix hescape
  · obtain ⟨r, -, heq⟩ := Option.map_eq_some_iff.mp h
    cases heq
    exact List.suffix_rfl
  · cases h
    exact List.suffix_rfl
  · cases h
    exact List.suffix_rfl
  · split at h
    · cases h
    · cases h
      exact List.suffix_rfl

theorem behindPiece_suffix {left : List Char}
    (hn : ∀ {x done sofar cs r y rest}, alternatives n x done sofar cs = some (r, y, rest) → rest <:+ cs ∧ Stop rest)
    (h : behindPiece n x done sofar (p, left) = some (r, y, rest)) : rest <:+ left ∧ Stop rest := by
  cases p with
  | inr f => exact hn h
  | inl p =>
    obtain ⟨⟨r, left'⟩, hquantified, h⟩ := Option.bind_eq_some_iff.mp h
    have hrest := hn h
    exact ⟨hrest.1.trans ((quantified_suffix hquantified).trans (skipBlanks_suffix x.flags left).1), hrest.2⟩

/-- Alternatives leave an end of what they are given, where expressions stop. -/
theorem alternatives_suffix (h : alternatives n x done sofar cs = some (r, y, rest)) :
    rest <:+ skipBlanks x.flags cs ∧ Stop rest := by
  induction n generalizing x done sofar cs r y rest with
  | zero => cases h
  | succ n ih =>
    have hn {x done sofar cs r y rest} (h : alternatives n x done sofar cs = some (r, y, rest)) :
        rest <:+ cs ∧ Stop rest :=
      ⟨(ih h).1.trans (skipBlanks_suffix x.flags cs).1, (ih h).2⟩
    rw [alternatives_succ] at h
    split at h
    · cases h
      exact ⟨List.nil_suffix, .nil⟩
    · rename_i c left hskip
      rw [hskip]
      split at h
      · rename_i hc
        subst hc
        cases h
        exact ⟨List.suffix_rfl, .paren left⟩
      · split at h
        · exact ⟨(hn h).1.trans (List.suffix_cons c left), (hn h).2⟩
        · obtain ⟨⟨p, left'⟩, hpiece, h⟩ := Option.bind_eq_some_iff.mp h
          obtain ⟨hrest, hstop⟩ := behindPiece_suffix hn h
          exact ⟨hrest.trans ((piece?_suffix (fun h => (hn h).1) hpiece).trans (List.suffix_cons c left)), hstop⟩

/-- Alternatives leave an end of the text, blanks in front of them or not. -/
theorem suffix_of_alternatives (h : alternatives n x done sofar cs = some (r, y, rest)) : rest <:+ cs ∧ Stop rest :=
  ⟨(alternatives_suffix h).1.trans (skipBlanks_suffix x.flags cs).1, (alternatives_suffix h).2⟩

end Suffix

theorem alternatives_stop (ht : Stop t) (n : Nat) (x : Context) (done sofar : Regex) (hskip : skipBlanks x.flags cs = t) :
    alternatives (n + 1) x done sofar cs = some (.alt done sofar, x, t) := by
  rw [alternatives_succ, hskip]
  cases ht <;> rfl

section Swap

variable {n m : Nat} {x y : Context} {done sofar r : Regex} {c : Char} {p : Regex × Context ⊕ Flags}

theorem result_swap {r' : Regex} {y' : Context} (h : some (r, y, w ++ t) = some (r', y', rest ++ t)) :
    some (r, y, w ++ t') = some (r', y', rest ++ t') := by
  obtain ⟨rfl, hend⟩ := Prod.mk.inj (Option.some.inj h)
  obtain ⟨rfl, hw⟩ := Prod.mk.inj hend
  rw [List.append_cancel_right hw]

/-- What the alternatives of `n` are in front of one stop, those of `m` are in front of the other. -/
def Swaps (t t' : List Char) (n m : Nat) : Prop :=
  ∀ {w rest x done sofar r y}, w.length < m → alternatives n x done sofar (w ++ t) = some (r, y, rest ++ t) →
    alternatives m x done sofar (w ++ t') = some (r, y, rest ++ t') ∨
      (t = [] ∧ rest = [] ∧ alternatives m x done sofar (w ++ t') = some (r, y, []))

theorem group?_swap (ht : Stop t) (ht' : Stop t') (hswaps : Swaps t t' n m) (hm : w.length < m)
    (h : group? n x (w ++ t) = some (p, rest ++ t)) : group? m x (w ++ t') = some (p, rest ++ t') := by
  obtain ⟨⟨o, left⟩, hopen, h⟩ := Option.bind_eq_some_iff.mp h
  cases o with
  | inr f =>
    obtain ⟨rfl, rfl⟩ := Prod.mk.inj (Option.some.inj h)
    exact Option.bind_eq_some_iff.mpr ⟨_, (steady_openingOf x).swap ht ht' trivial hopen, rfl⟩
  | inl inner =>
    obtain ⟨⟨r, inner', left'⟩, hinner, h⟩ := Option.bind_eq_some_iff.mp h
    dsimp only at h
    split at h
    · obtain ⟨rfl, rfl⟩ := Prod.mk.inj (Option.some.inj h)
      have hsuffix : (')' :: rest) ++ t <:+ left := (suffix_of_alternatives hinner).1
      obtain ⟨v, rfl⟩ := (List.suffix_append (')' :: rest) t).trans hsuffix
      have hvlength := ((steady_openingOf x).suffix hopen).length_le
      simp only [List.length_append] at hvlength
      have hclose : alternatives n inner .never .nothing (v ++ t) = some (r, inner', (')' :: rest) ++ t) := hinner
      rcases hswaps (by omega) hclose with hinner' | ⟨-, hnil, -⟩
      · refine Option.bind_eq_some_iff.mpr ⟨_, (steady_openingOf x).swap ht ht' trivial hopen, ?_⟩
        exact Option.bind_eq_some_iff.mpr ⟨_, hinner', rfl⟩
      · cases hnil
    · cases h

theorem piece?_swap (ht : Stop t) (ht' : Stop t') (hswaps : Swaps t t' n m) (hm : w.length < m)
    (hbrace : c = '\\' → rest ≠ ['\x7b']) (h : piece? n x c (w ++ t) = some (p, rest ++ t)) :
    piece? m x c (w ++ t') = some (p, rest ++ t') := by
  unfold piece? at h ⊢
  split at h
  · exact group?_swap ht ht' hswaps hm h
  · obtain ⟨⟨k, left⟩, hset, heq⟩ := Option.map_eq_some_iff.mp h
    obtain ⟨rfl, rfl⟩ := Prod.mk.inj heq
    have hset' := (classBody_swap ht ht' _).2 (m := (w ++ t').length + 1) hset
      (by rw [List.length_append]; omega)
    exact Option.map_eq_some_iff.mpr ⟨_, hset', rfl⟩
  · obtain ⟨⟨e, left⟩, hescape, heq⟩ := Option.map_eq_some_iff.mp h
    obtain ⟨rfl, rfl⟩ := Prod.mk.inj heq
    exact Option.map_eq_some_iff.mpr
      ⟨_, (steady_escape? x.flags).swap ht ht' (fun _ => hbrace rfl) hescape, rfl⟩
  · obtain ⟨r, hdot, heq⟩ := Option.map_eq_some_iff.mp h
    exact Option.map_eq_some_iff.mpr ⟨r, hdot, Option.some.inj (some_swap (congrArg some heq))⟩
  · exact some_swap h
  · exact some_swap h
  · split_ifs at h ⊢
    exact some_swap h

theorem behindPiece_swap (ht : Stop t) (ht' : InPlaceOf t' t) (hswaps : Swaps t t' n m) (hm : w.length < m)
    (h : behindPiece n x done sofar (p, w ++ t) = some (r, y, rest ++ t)) :
    behindPiece m x done sofar (p, w ++ t') = some (r, y, rest ++ t') ∨
      (t = [] ∧ rest = [] ∧ behindPiece m x done sofar (p, w ++ t') = some (r, y, [])) := by
  cases p with
  | inr f => exact hswaps hm h
  | inl p =>
    obtain ⟨⟨s, left⟩, hquantified, h⟩ := Option.bind_eq_some_iff.mp h
    obtain ⟨v, rfl⟩ := (List.suffix_append rest t).trans (suffix_of_alternatives h).1
    have hvlength := ((quantified_suffix hquantified).trans (skipBlanks_suffix _ _).1).length_le
    simp only [List.length_append] at hvlength
    have hfuel : w.length < (w ++ t').length + 1 + v.length := by
      rw [List.length_append]
      omega
    rcases quantified_swap ht ht' hquantified hfuel with hquantified' | ⟨rfl, rfl, hquantified'⟩
    · rw [behindPiece, hquantified']
      exact hswaps (by omega) h
    · cases n with
      | zero => cases h
      | succ n =>
        obtain ⟨m, rfl⟩ : ∃ m', m = m' + 1 := ⟨m - 1, by omega⟩
        obtain ⟨rfl, hend⟩ := Prod.mk.inj (Option.some.inj ((alternatives_stop .nil n _ _ _ rfl).symm.trans h))
        obtain ⟨rfl, hrest⟩ := Prod.mk.inj hend
        have hnil : alternatives (m + 1) p.2 done (sofar.seq s) [] = some (.alt done (sofar.seq s), p.2, []) :=
          alternatives_stop .nil m _ _ _ rfl
        refine .inr ⟨rfl, by simpa using hrest.symm, ?_⟩
        rw [behindPiece, hquantified']
        exact hnil

/-- A piece and the alternatives behind it. A brace in front of the stop is no part of an escape, because it is no number
of times either. -/
theorem pieces_swap (ht : Stop t) (ht' : InPlaceOf t' t) (hswaps : Swaps t t' n m) (hm : w.length < m)
    (h : (piece? n x c (w ++ t)).bind (behindPiece n x done sofar) = some (r, y, rest ++ t)) :
    (piece? m x c (w ++ t')).bind (behindPiece m x done sofar) = some (r, y, rest ++ t') ∨
      (t = [] ∧ rest = [] ∧ (piece? m x c (w ++ t')).bind (behindPiece m x done sofar) = some (r, y, [])) := by
  obtain ⟨⟨p, left⟩, hpiece, h⟩ := Option.bind_eq_some_iff.mp h
  have hleft := piece?_suffix (fun h => (suffix_of_alternatives h).1) hpiece
  obtain ⟨u, rfl⟩ := (List.suffix_append rest t).trans (behindPiece_suffix suffix_of_alternatives h).1
  have hulength := hleft.length_le
  simp only [List.length_append] at hulength
  have hbrace (hc : c = '\\') : u ≠ ['\x7b'] := by
    rintro rfl
    subst hc
    obtain ⟨⟨e, left⟩, -, heq⟩ := Option.map_eq_some_iff.mp hpiece
    obtain ⟨rfl, -⟩ := Prod.mk.inj heq
    obtain ⟨⟨s, left'⟩, hquantified, -⟩ := Option.bind_eq_some_iff.mp h
    cases (quantified_brace ht _ _).symm.trans hquantified
  rw [piece?_swap ht ht'.1 hswaps hm hbrace hpiece]
  exact behindPiece_swap ht ht' hswaps (by omega) h

/-- What alternatives are in front of a stop does not depend on the stop. At the end of the text a comment may be
open, and it swallows what comes next. -/
theorem alternatives_swap (ht : Stop t) (ht' : InPlaceOf t' t) (n m : Nat) : Swaps t t' n m := by
  have hstop := ht'.1
  induction n generalizing m with
  | zero =>
    intro w rest x done sofar r y hm h
    cases h
  | succ n ih =>
    intro w rest x done sofar r y hm h
    obtain ⟨m, rfl⟩ : ∃ m', m = m' + 1 := ⟨m - 1, by omega⟩
    obtain ⟨v, hv⟩ : ∃ v, skipBlanks x.flags (w ++ t) = v ++ t := by
      obtain ⟨v, hv⟩ := (List.suffix_append rest t).trans (alternatives_suffix h).1
      exact ⟨v, hv.symm⟩
    have hvlength := hv ▸ (skipBlanks_suffix x.flags (w ++ t)).1.length_le
    simp only [List.length_append] at hvlength
    rcases skipBlanks_cases ht ht' hv with hv' | ⟨rfl, rfl, hv'⟩
    · cases v with
      | nil =>
        rw [alternatives_stop ht n x done sofar hv] at h
        rw [alternatives_stop hstop m x done sofar hv']
        exact .inl (result_swap (w := []) h)
      | cons c v =>
        rw [alternatives_succ, hv] at h
        rw [alternatives_succ, hv']
        rw [List.length_cons] at hvlength
        dsimp only [List.cons_append] at h ⊢
        split_ifs at h ⊢
        · exact .inl (result_swap (w := c :: v) h)
        · exact ih m (by omega) h
        · exact pieces_swap ht ht' (ih m) (by omega) h
    · rw [alternatives_stop .nil n x done sofar hv] at h
      rw [alternatives_stop .nil m x done sofar hv']
      obtain ⟨rfl, hend⟩ := Prod.mk.inj (Option.some.inj h)
      obtain ⟨rfl, hrest⟩ := Prod.mk.inj hend
      exact .inr ⟨rfl, by simpa using hrest.symm, rfl⟩

end Swap

end Regex
end Transclusion
