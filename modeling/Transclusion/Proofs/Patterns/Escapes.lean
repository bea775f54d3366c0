import Transclusion.Proofs.Patterns.Stops

/-!
# Where escapes and numbers of times stop

* `Regex.steady_escape?` : what a backslash introduces is read in front of a stop, braces and all;
* `Regex.steady_bounds?` : so is a number of times in braces; `Regex.bounds?_stop` : there is none at a stop.
-/

namespace Transclusion
namespace Regex

variable {t t' w rest cs : List Char} {f : Flags}

/-! ## Escapes -/

theorem digitValue?_of_digitsToNat? {base n : Nat} {cs : List Char} {c : Char} (h : digitsToNat? base cs = some n)
    (hc : c ∈ cs) : digitValue? base c ≠ none := by
  have hfold (ds : List Char) (acc : Option Nat)
      (h : ds.foldl (fun acc c => do return (← acc) * base + (← digitValue? base c)) acc = some n) :
      acc ≠ none ∧ ∀ c ∈ ds, digitValue? base c ≠ none := by
    induction ds generalizing acc with
    | nil => simp_all
    | cons d ds ih =>
      obtain ⟨hacc, hds⟩ := ih _ h
      cases acc <;> cases hd : digitValue? base d <;> simp_all
  unfold digitsToNat? at h
  split at h
  · cases h
  · exact (hfold cs _ h).2 c hc

theorem paren_not_mem_of_hexChar? {cs : List Char} {c : Char} (h : hexChar? cs = some c) : ')' ∉ cs := by
  obtain ⟨n, hn, -⟩ := Option.bind_eq_some_iff.mp h
  intro hmem
  exact digitValue?_of_digitsToNat? hn hmem (by decide)

theorem paren_not_mem_of_ofList {cs : List Char} {name : String} (h : String.ofList cs = name)
    (hname : ')' ∉ name.toList) : ')' ∉ cs := by
  rwa [← h, String.toList_ofList] at hname

theorem paren_not_mem_of_property? {name : List Char} {k : CharClass} (h : property? name = some k) :
    ')' ∉ name := by
  unfold property? at h
  generalize hplain : (name.filter fun c => !(c == ' ' || c == '-' || c == '_')).map Char.toLower = plain at h
  have hpara : ')' ∉ plain := by
    dsimp only at h
    split at h
    case h_17 => cases h
    all_goals
      rename_i heq
      exact paren_not_mem_of_ofList heq (by decide)
  intro hmem
  rw [← hplain] at hpara
  exact hpara (List.mem_map.mpr ⟨')', List.mem_filter.mpr ⟨hmem, by decide⟩, by decide⟩)

theorem paren_not_mem_of_asciiClass? {name : List Char} {k : CharClass} (h : asciiClass? (String.ofList name) = some k) :
    ')' ∉ name := by
  unfold asciiClass? at h
  dsimp only at h
  split at h
  case h_15 => cases h
  all_goals
    rename_i heq
    exact paren_not_mem_of_ofList heq (by decide)

theorem steady_hexEscape? (width : Nat) : Steady (fun _ _ => True) (hexEscape? width) := by
  refine .ofHead (c := '\x7b') (by decide)
    (.closed (p := (· != '\x7d')) (g := hexChar?) rfl fun _ _ => paren_not_mem_of_hexChar?)
    (.taken width fun _ _ => paren_not_mem_of_hexChar?) fun cs hcs => ?_
  unfold hexEscape?
  split
  · exact absurd rfl (hcs _)
  · rfl

def namedProperty? (name : List Char) : Option CharClass :=
  match name with
  | '^' :: name => (property? name).map .compl
  | _ => property? name

theorem paren_not_mem_of_namedProperty? {name : List Char} {k : CharClass} (h : namedProperty? name = some k) :
    ')' ∉ name := by
  unfold namedProperty? at h
  split at h
  · obtain ⟨k, hk, -⟩ := Option.map_eq_some_iff.mp h
    rw [List.mem_cons, not_or]
    exact ⟨by decide, paren_not_mem_of_property? hk⟩
  · exact paren_not_mem_of_property? h

theorem steady_propertyEscape? : Steady (fun _ _ => True) propertyEscape? := by
  refine .ofCons rfl fun c => ?_
  by_cases hc : c = '\x7b'
  · subst hc
    exact .closed (p := (· != '\x7d')) (g := namedProperty?) rfl fun _ _ => paren_not_mem_of_namedProperty?
  · have heq : (fun cs => propertyEscape? (c :: cs)) = fun cs => (property? [c]).map fun k => (k, cs) := by
      funext cs
      unfold propertyEscape?
      split <;> simp_all
    rw [heq]
    exact .option _

def inBoundaryName (c : Char) : Bool := c.isAlpha || c == '-'

/-- A word boundary by its name in braces. A brace with no name behind it is left, but for the end of the text. -/
def namedBoundary? (name body cs : List Char) : Option (Assertion × List Char) :=
  match name, body with
  | [], _ :: _ => some (.boundary, cs)
  | _, '\x7d' :: after => (boundaryOfName? (String.ofList name)).map (·, after)
  | _, _ => none

theorem boundaryEscape?_brace (cs : List Char) : boundaryEscape? ('\x7b' :: cs) =
    namedBoundary? (cs.takeWhile inBoundaryName) (cs.dropWhile inBoundaryName) ('\x7b' :: cs) := rfl

theorem boundaryEscape?_of_ne (hcs : ∀ v, cs ≠ '\x7b' :: v) : boundaryEscape? cs = some (.boundary, cs) := by
  unfold boundaryEscape?
  split
  · exact absurd rfl (hcs _)
  · rfl

theorem namedBoundary?_suffix {name body : List Char} {a : Assertion} (hbody : body <:+ cs)
    (h : namedBoundary? name body cs = some (a, rest)) : rest <:+ cs := by
  unfold namedBoundary? at h
  split at h
  · cases h
    exact List.suffix_rfl
  · obtain ⟨b, -, heq⟩ := Option.map_eq_some_iff.mp h
    cases heq
    exact (List.suffix_cons _ rest).trans hbody
  · cases h

theorem namedBoundary?_swap (ht : Stop t) {name body : List Char} {a : Assertion}
    (ha : a = .boundary → rest ≠ ['\x7b']) (hw : name ++ body = w)
    (h : namedBoundary? name (body ++ t) ('\x7b' :: w ++ t) = some (a, rest ++ t)) :
    namedBoundary? name (body ++ t') ('\x7b' :: w ++ t') = some (a, rest ++ t') := by
  subst hw
  cases body with
  | nil =>
    cases ht with
    | nil => cases name <;> cases h
    | paren u =>
      cases name with
      | nil =>
        obtain ⟨rfl, hrest⟩ := Prod.mk.inj (Option.some.inj h)
        have hbrace : ['\x7b'] ++ ')' :: u = rest ++ ')' :: u := hrest
        exact absurd (List.append_cancel_right hbrace).symm (ha rfl)
      | cons e name => cases h
  | cons d body =>
    cases name with
    | nil => exact some_swap h
    | cons e name =>
      by_cases hd : d = '\x7d'
      · subst hd
        exact map_swap h
      · simp [namedBoundary?, hd] at h

theorem steady_boundaryEscape? : Steady (fun a rest => a = .boundary → rest ≠ ['\x7b']) boundaryEscape? where
  suffix {cs rest a} h := by
    by_cases hcs : ∃ v, cs = '\x7b' :: v
    · obtain ⟨v, rfl⟩ := hcs
      exact namedBoundary?_suffix ((List.dropWhile_suffix _).trans (List.suffix_cons _ v)) h
    · rw [boundaryEscape?_of_ne fun v hv => hcs ⟨v, hv⟩] at h
      cases h
      exact List.suffix_rfl
  swap {t t' w rest a} ht ht' ha h := by
    by_cases hw : ∃ v, w = '\x7b' :: v
    · obtain ⟨v, rfl⟩ := hw
      have hpara : inBoundaryName ')' = false := by decide
      rw [List.cons_append, boundaryEscape?_brace] at h ⊢
      rw [ht.takeWhile_append hpara, ht.dropWhile_append hpara] at h
      rw [ht'.takeWhile_append hpara, ht'.dropWhile_append hpara]
      exact namedBoundary?_swap ht ha List.takeWhile_append_dropWhile h
    · have hne {u : List Char} (hu : Stop u) (v : List Char) : w ++ u ≠ '\x7b' :: v := by
        cases w with
        | nil => exact hu.ne_cons (by decide)
        | cons c w =>
          intro heq
          cases heq
          exact hw ⟨w, rfl⟩
      rw [boundaryEscape?_of_ne (hne ht)] at h
      rw [boundaryEscape?_of_ne (hne ht')]
      exact some_swap h

theorem steady_escape? (f : Flags) :
    Steady (fun e rest => e = .check .boundary → rest ≠ ['\x7b']) (escape? f) := by
  refine .ofCons rfl fun c => ?_
  by_cases hx : c = 'x'
  · subst hx
    exact (steady_hexEscape? 2).map Escape.char fun _ _ _ => trivial
  by_cases hu : c = 'u'
  · subst hu
    exact (steady_hexEscape? 4).map Escape.char fun _ _ _ => trivial
  by_cases hU : c = 'U'
  · subst hU
    exact (steady_hexEscape? 8).map Escape.char fun _ _ _ => trivial
  by_cases hp : c = 'p'
  · subst hp
    exact (steady_propertyEscape?.map Escape.set fun _ _ _ => trivial).guarded f.unicode
  by_cases hP : c = 'P'
  · subst hP
    exact (steady_propertyEscape?.map (Escape.set ∘ CharClass.compl) fun _ _ _ => trivial).guarded f.unicode
  by_cases hb : c = 'b'
  · subst hb
    exact steady_boundaryEscape?.map Escape.check fun a rest h ha => h (congrArg _ ha)
  have heq : (fun cs => escape? f (c :: cs)) = fun cs => ((escape? f [c]).map (·.1)).map fun e => (e, cs) := by
    funext cs
    unfold escape?
    dsimp only
    split
    case h_18 =>
      split
      · rfl
      · cases shorthand? f c <;> rfl
    all_goals first
      | rfl
      | contradiction
  rw [heq]
  exact .option _

/-! ## Numbers of times -/

def digits? (cs : List Char) : Option (Nat × List Char) :=
  (digitsToNat? 10 (cs.takeWhile Char.isDigit)).map (·, cs.dropWhile Char.isDigit)

theorem digits?_behind {n : Nat} (h : digits? cs = some (n, rest)) : Behind rest cs := by
  obtain ⟨n, hn, heq⟩ := Option.map_eq_some_iff.mp h
  cases heq
  have hcs : cs.takeWhile Char.isDigit ++ cs.dropWhile Char.isDigit = cs := List.takeWhile_append_dropWhile
  have hlength := congrArg List.length hcs
  rw [List.length_append] at hlength
  refine ⟨List.dropWhile_suffix _, ?_⟩
  cases hdigits : cs.takeWhile Char.isDigit with
  | nil =>
    rw [hdigits] at hn
    cases hn
  | cons d ds =>
    rw [hdigits, List.length_cons] at hlength
    omega

theorem steady_digits? : Steady (fun _ _ => True) digits? where
  suffix h := (digits?_behind h).suffix
  swap {t t' w rest a} ht ht' _ h := by
    have hdigit : Char.isDigit ')' = false := rfl
    unfold digits? at h ⊢
    rw [ht.takeWhile_append hdigit, ht.dropWhile_append hdigit] at h
    rw [ht'.takeWhile_append hdigit, ht'.dropWhile_append hdigit]
    exact map_swap h

def boundNumber? (f : Flags) (cs : List Char) : Option (Nat × List Char) :=
  (digitsToNat? 10 ((skipBlanks f cs).takeWhile Char.isDigit)).map
    (·, skipBlanks f ((skipBlanks f cs).dropWhile Char.isDigit))

theorem boundNumber?_eq (f : Flags) :
    boundNumber? f = fun cs => (digits? (skipBlanks f cs)).map fun (n, rest) => (n, skipBlanks f rest) := by
  funext cs
  unfold boundNumber? digits?
  rw [Option.map_map]
  rfl

theorem steady_boundNumber? (f : Flags) : Steady (fun _ rest => rest ≠ []) (boundNumber? f) := by
  rw [boundNumber?_eq]
  exact (steady_digits?.skipBlanksBefore fun _ _ _ => digits?_behind).skipBlanksAfter

def closing? (least most : Nat) (cs : List Char) : Option ((Nat × Option Nat) × List Char) :=
  match cs with
  | '\x7d' :: rest => if least ≤ most && most < Nat.pow 2 32 then some ((least, some most), rest) else none
  | _ => none

def orMore? (f : Flags) (least : Nat) (cs : List Char) : Option ((Nat × Option Nat) × List Char) :=
  match cs with
  | '\x7d' :: rest => some ((least, none), rest)
  | rest => (boundNumber? f rest).bind fun (most, rest) => closing? least most rest

def mostTimes? (f : Flags) (least : Nat) (cs : List Char) : Option ((Nat × Option Nat) × List Char) :=
  match cs with
  | '\x7d' :: rest => some ((least, some least), rest)
  | ',' :: rest => orMore? f least (skipBlanks f rest)
  | _ => none

theorem bounds?_eq (f : Flags) : bounds? f = fun cs => (boundNumber? f cs).bind fun (least, rest) =>
    if least < Nat.pow 2 32 then mostTimes? f least rest else none := by
  funext cs
  unfold bounds?
  refine bind_congr fun ⟨least, rest⟩ => ?_
  dsimp only
  by_cases hleast : least ≥ Nat.pow 2 32
  · rw [if_pos hleast, if_neg (Nat.not_lt.mpr hleast)]
    rfl
  · rw [if_neg hleast, if_pos (Nat.lt_of_not_le hleast)]
    rfl

theorem steady_closing? (least most : Nat) : Steady (fun _ _ => True) (closing? least most) := by
  refine .ofHead (c := '\x7d') (by decide) ((Steady.option (some (least, some most))).guarded _) (.option none)
    fun cs hcs => ?_
  unfold closing?
  split
  · exact absurd rfl (hcs _)
  · rfl

theorem closing?_stop (least most : Nat) (ht : Stop t) : closing? least most t = none := by
  cases ht <;> rfl

theorem steady_orMore? (f : Flags) (least : Nat) : Steady (fun _ _ => True) (orMore? f least) := by
  refine .ofHead (c := '\x7d') (by decide) (.option (some (least, none)))
    (.bind (steady_boundNumber? f) (steady_closing? least) ?_) fun cs hcs => ?_
  · rintro most b r rest t ht h rfl
    cases (closing?_stop least most ht).symm.trans h
  · unfold orMore?
    split
    · exact absurd rfl (hcs _)
    · rfl

theorem orMore?_behind {least : Nat} {b : Nat × Option Nat} (h : orMore? f least cs = some (b, rest)) :
    Behind rest cs := by
  unfold orMore? at h
  split at h
  · cases h
    exact .cons List.suffix_rfl
  · obtain ⟨⟨most, left⟩, hmost, h⟩ := Option.bind_eq_some_iff.mp h
    have hleft : Behind rest left := by
      simp only [closing?] at h
      split at h
      · split at h
        · cases h
          exact .cons List.suffix_rfl
        · cases h
      · cases h
    exact hleft.trans_suffix ((steady_boundNumber? f).suffix hmost)

def upToMost? (f : Flags) (least : Nat) (cs : List Char) : Option ((Nat × Option Nat) × List Char) :=
  match cs with
  | ',' :: rest => orMore? f least (skipBlanks f rest)
  | _ => none

theorem steady_upToMost? (f : Flags) (least : Nat) : Steady (fun _ _ => True) (upToMost? f least) := by
  refine .ofHead (c := ',') (by decide)
    ((steady_orMore? f least).skipBlanksBefore fun _ _ _ => orMore?_behind) (.option none) fun cs hcs => ?_
  unfold upToMost?
  split
  · exact absurd rfl (hcs _)
  · rfl

theorem steady_mostTimes? (f : Flags) (least : Nat) : Steady (fun _ _ => True) (mostTimes? f least) := by
  refine .ofHead (c := '\x7d') (by decide) (.option (some (least, some least))) (steady_upToMost? f least)
    fun cs hcs => ?_
  unfold mostTimes?
  split
  · exact absurd rfl (hcs _)
  · rfl
  · unfold upToMost?
    split
    · simp_all
    · rfl

theorem mostTimes?_stop (least : Nat) (ht : Stop t) : mostTimes? f least t = none := by
  cases ht <;> rfl

theorem steady_bounds? (f : Flags) : Steady (fun _ _ => True) (bounds? f) := by
  rw [bounds?_eq]
  refine .bind (steady_boundNumber? f) (fun least => (steady_mostTimes? f least).guarded (least < Nat.pow 2 32)) ?_
  rintro least b r rest t ht h rfl
  rw [List.nil_append, mostTimes?_stop least ht, ite_self] at h
  cases h

theorem bounds?_stop (ht : Stop t) : bounds? f t = none := by
  have hdigits : t.takeWhile Char.isDigit = [] := by
    cases ht <;> rfl
  rw [bounds?_eq]
  dsimp only
  rw [boundNumber?, ht.skipBlanks_eq, hdigits]
  rfl

end Regex
end Transclusion
