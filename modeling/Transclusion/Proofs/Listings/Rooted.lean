import Transclusion.Proofs.Listings.Opening

/-!
# Patterns below a literal root

A pattern may begin with segments that stand for nothing but themselves. The whole pattern then matches a path exactly
if the path begins with these segments, and what follows them in the pattern matches what follows them in the path. Read
by themselves, the two halves of a pattern may not have the pieces that the whole has: `**` after `**` is left out
unless it is the second piece of all.

* `Glob.accepts_deep_deep` : `**` after `**` adds nothing;
* `Glob.Corresponds` : pieces that are read of one text after two different beginnings;
* `Glob.corresponds_compileFrom` : what was read before matters only if it ends in `**`;
* `Glob.compile_literal`, `Glob.compile_below` : patterns without wildcards, and with some behind a literal root;
* `Glob.Extends` : pieces that match what others do below a root; `Glob.compile_splitRoot` : those of a pattern, and of
  what follows its root.
-/

namespace Transclusion.Glob

/-! ## Pieces that accept the same -/

theorem accepts_cons_congr {ps qs : List Piece} (h : accepts ps = accepts qs) (p : Piece) :
    accepts (p :: ps) = accepts (p :: qs) := by
  funext cs
  by_cases hrun : p = .run
  · simp [hrun, accepts, h]
  by_cases hdeep : p = .deep
  · simp [hdeep, accepts, h]
  cases cs with
  | nil => rw [accepts.eq_5 _ _ hrun hdeep, accepts.eq_5 _ _ hrun hdeep]
  | cons c cs => rw [accepts.eq_4 _ _ _ _ hrun hdeep, accepts.eq_4 _ _ _ _ hrun hdeep, h]

theorem accepts_append_congr {ps qs : List Piece} (h : accepts ps = accepts qs) (front : List Piece) :
    accepts (front ++ ps) = accepts (front ++ qs) := by
  induction front with
  | nil => exact h
  | cons p front ih => exact accepts_cons_congr ih p

theorem afterSlash_eq_true {rest : List Char → Bool} {cs : List Char} :
    afterSlash rest cs = true ↔ ∃ skipped left, cs = skipped ++ '/' :: left ∧ rest left = true := by
  induction cs with
  | nil => simp [afterSlash]
  | cons c cs ih =>
    rw [afterSlash, Bool.or_eq_true, Bool.and_eq_true, beq_iff_eq, ih]
    constructor
    · rintro (⟨rfl, h⟩ | ⟨skipped, left, rfl, h⟩)
      · exact ⟨[], cs, rfl, h⟩
      · exact ⟨c :: skipped, left, rfl, h⟩
    · rintro ⟨skipped, left, hcs, h⟩
      cases skipped with
      | nil =>
        cases hcs
        exact .inl ⟨rfl, h⟩
      | cons c' skipped =>
        cases hcs
        exact .inr ⟨skipped, left, rfl, h⟩

theorem accepts_deep_iff {ps : List Piece} {cs : List Char} : accepts (.deep :: ps) cs = true ↔
    accepts ps cs = true ∨ (∃ skipped left, cs = skipped ++ '/' :: left ∧ accepts ps left = true) ∨
      accepts ps [] = true := by
  rw [accepts, Bool.or_eq_true, Bool.or_eq_true, afterSlash_eq_true, or_assoc]

theorem accepts_deep_deep (ps : List Piece) : accepts (.deep :: .deep :: ps) = accepts (.deep :: ps) := by
  funext cs
  rw [Bool.eq_iff_iff]
  constructor
  · intro h
    rcases accepts_deep_iff.mp h with h | ⟨skipped, left, hcs, h⟩ | h
    · exact h
    · -- the second goes on from where the first ended
      rcases accepts_deep_iff.mp h with h | ⟨skipped', left', hleft, h⟩ | h
      · exact accepts_deep_iff.mpr (.inr (.inl ⟨skipped, left, hcs, h⟩))
      · exact accepts_deep_iff.mpr (.inr (.inl ⟨skipped ++ '/' :: skipped', left', by simp [hcs, hleft], h⟩))
      · exact accepts_deep_iff.mpr (.inr (.inr h))
    · rcases accepts_deep_iff.mp h with h | ⟨skipped, left, hnil, -⟩ | h
      · exact accepts_deep_iff.mpr (.inr (.inr h))
      · simp at hnil
      · exact accepts_deep_iff.mpr (.inr (.inr h))
  · intro h
    exact accepts_deep_iff.mpr (.inl h)

/-! ## One text after two beginnings -/

def lastDeep (done : List Piece) : List Piece := if done.head? = some .deep then [.deep] else []

theorem lastDeep_cons {p : Piece} (h : p ≠ .deep) (done : List Piece) : lastDeep (p :: done) = [] := by
  simp [lastDeep, h]

def withDeep (done : List Piece) : List Piece := if endsDeep done then done else .deep :: done

theorem endsDeep_iff {done : List Piece} : endsDeep done = true ↔ ∃ p rest, done = .deep :: p :: rest := by
  unfold endsDeep
  split
  · simp
  · rename_i hnot
    simp only [Bool.false_eq_true, false_iff]
    rintro ⟨p, rest, rfl⟩
    exact hnot p rest rfl

theorem lastDeep_withDeep (done : List Piece) : lastDeep (withDeep done) = [.deep] := by
  unfold withDeep
  split
  · rename_i hends
    obtain ⟨p, rest, rfl⟩ := endsDeep_iff.mp hends
    rfl
  · rfl

/-- Whether or not `**` is left out, what was read last and what is read now accept the same. -/
theorem exists_withDeep (done : List Piece) : ∃ ds, (withDeep done).reverse = done.reverse ++ ds ∧
    ∀ ps, accepts (lastDeep done ++ (ds ++ ps)) = accepts (.deep :: ps) := by
  unfold withDeep
  split
  · rename_i hends
    obtain ⟨p, rest, rfl⟩ := endsDeep_iff.mp hends
    exact ⟨[], (List.append_nil _).symm, fun ps => rfl⟩
  · refine ⟨[.deep], List.reverse_cons, fun ps => ?_⟩
    unfold lastDeep
    split
    · exact accepts_deep_deep ps
    · rfl

/-- What is read after `done`, and after `done'`: neither is a pattern, for the same reason, or both have pieces that
accept the same. -/
inductive Corresponds (done done' : List Piece) : (x x' : Except Fault (List Piece)) → Prop
  | refused {f f' : Fault} (kind : f.kind = f'.kind) : Corresponds done done' (.error f) (.error f')
  | read {ps ps' : List Piece} (same : accepts (lastDeep done ++ ps) = accepts (lastDeep done' ++ ps')) :
      Corresponds done done' (.ok (done.reverse ++ ps)) (.ok (done'.reverse ++ ps'))

namespace Corresponds

variable {done done' : List Piece} {x x' : Except Fault (List Piece)}

theorem nil (hdeep : lastDeep done = lastDeep done') :
    Corresponds done done' (.ok done.reverse) (.ok done'.reverse) := by
  have h : Corresponds done done' (.ok (done.reverse ++ [])) (.ok (done'.reverse ++ [])) := .read (by rw [hdeep])
  simpa using h

theorem of_cons {p : Piece} (hp : p ≠ .deep) (hdeep : lastDeep done = lastDeep done')
    (h : Corresponds (p :: done) (p :: done') x x') : Corresponds done done' x x' := by
  cases h with
  | refused kind => exact .refused kind
  | @read ps ps' same =>
    rw [lastDeep_cons hp, lastDeep_cons hp, List.nil_append, List.nil_append] at same
    have hsame : accepts (lastDeep done ++ p :: ps) = accepts (lastDeep done' ++ p :: ps') := by
      rw [← hdeep]
      exact accepts_append_congr (accepts_cons_congr same p) _
    simpa using Corresponds.read hsame

theorem of_withDeep (h : Corresponds (withDeep done) (withDeep done') x x') : Corresponds done done' x x' := by
  obtain ⟨ds, hds, haccepts⟩ := exists_withDeep done
  obtain ⟨ds', hds', haccepts'⟩ := exists_withDeep done'
  cases h with
  | refused kind => exact .refused kind
  | @read ps ps' same =>
    rw [lastDeep_withDeep, lastDeep_withDeep] at same
    rw [hds, hds', List.append_assoc, List.append_assoc]
    exact .read ((haccepts ps).trans (same.trans (haccepts' ps').symm))

end Corresponds

/-- What was read before matters only in whether it ends in `**`, and in whether a segment begins after it. -/
theorem corresponds_compileFrom {i i' : Nat} {before before' : Option Char} {done done' : List Piece}
    (hbefore : before.all (· == '/') = before'.all (· == '/')) (hdeep : lastDeep done = lastDeep done')
    (cs : List Char) :
    Corresponds done done' (compileFrom i before done cs) (compileFrom i' before' done' cs) := by
  have hwith : ∀ done done', lastDeep (withDeep done) = lastDeep (withDeep done') := by
    intro done done'
    rw [lastDeep_withDeep, lastDeep_withDeep]
  have hpush : ∀ {p}, p ≠ .deep → ∀ done done', lastDeep (p :: done) = lastDeep (p :: done') := by
    intro p hp done done'
    rw [lastDeep_cons hp, lastDeep_cons hp]
  fun_induction compileFrom i before done cs generalizing i' before' done' with
  | case1 =>
    rw [compileFrom]
    exact .nil hdeep
  | case2 i before done rest ih =>
    have hp : Piece.anyChar ≠ .deep := by simp
    rw [compileFrom]
    exact .of_cons hp hdeep (ih rfl (hpush hp _ _))
  | case3 =>
    rw [compileFrom]
    exact .refused rfl
  | case4 i before done whole =>
    rename_i _ hstar
    rw [compileFrom.eq_4 _ _ _ _ hstar, if_pos (hbefore ▸ whole)]
    exact .of_withDeep (.nil (hwith done done'))
  | case5 i before done whole =>
    rename_i _ rest hstar ih
    rw [compileFrom.eq_4 _ _ _ _ hstar, if_pos (hbefore ▸ whole)]
    exact .of_withDeep (ih rfl (hwith done done'))
  | case6 i before done rest hstar whole hnil hslash =>
    rw [compileFrom.eq_4 _ _ _ _ hstar, if_pos (hbefore ▸ whole)]
    dsimp only
    split
    · exact absurd rfl hnil
    · rename_i rest
      exact absurd rfl (hslash rest)
    · exact .refused rfl
  | case7 i before done rest hstar whole =>
    rw [compileFrom.eq_4 _ _ _ _ hstar, if_neg (hbefore ▸ whole)]
    exact .refused rfl
  | case8 i before done rest hstars hstar ih =>
    have hp : Piece.run ≠ .deep := by simp
    rw [compileFrom.eq_5 _ _ _ _ hstars hstar]
    exact .of_cons hp hdeep (ih rfl (hpush hp _ _))
  | case9 i before done rest p rest' hb ih =>
    have hp : p ≠ .deep := by
      obtain ⟨-, rs, rfl | rfl⟩ := bracket_eq_some hb <;> simp
    rw [compileFrom.eq_6]
    split
    · rename_i p₁ rest₁ hb₁
      cases hb.symm.trans hb₁
      exact .of_cons hp hdeep (ih rfl (hpush hp _ _))
    · rename_i hb₁
      cases hb.symm.trans hb₁
  | case10 i before done rest hb =>
    rw [compileFrom.eq_6]
    split
    · rename_i p₁ rest₁ hb₁
      cases hb.symm.trans hb₁
    · exact .refused rfl
  | case11 i before done c rest hone hstars hdeep' hstar hbracket ih =>
    have hp : Piece.char c ≠ .deep := by simp
    rw [compileFrom.eq_7 _ _ _ _ _ hone hstars hdeep' hstar hbracket]
    exact .of_cons hp hdeep (ih rfl (hpush hp _ _))

/-! ## Literal roots -/

theorem compileFrom_literal {literal : List Char} (h : ∀ c ∈ literal, Path.isWildcard c = false) (i : Nat)
    (before : Option Char) (done : List Piece) (cs : List Char) :
    ∃ i', compileFrom i before done (literal ++ cs) =
      compileFrom i' (literal.getLast?.or before) ((literal.map .char).reverse ++ done) cs := by
  induction literal generalizing i before done with
  | nil => exact ⟨i, rfl⟩
  | cons c literal ih =>
    obtain ⟨hc, hliteral⟩ := List.forall_mem_cons.mp h
    have hplain : c ≠ '?' ∧ c ≠ '*' ∧ c ≠ '[' := by
      refine ⟨?_, ?_, ?_⟩ <;> rintro rfl <;> cases hc
    obtain ⟨hone, hstar, hbracket⟩ := hplain
    obtain ⟨i', hi'⟩ := ih hliteral (i + 1) (some c) (.char c :: done)
    refine ⟨i', ?_⟩
    rw [List.cons_append, compileFrom.eq_7 _ _ _ _ _ hone (fun _ h _ => hstar h) (fun _ h _ => hstar h) hstar hbracket,
      hi', List.getLast?_cons]
    congr 1
    · cases literal.getLast? <;> rfl
    · simp

theorem accepts_literal {literal : List Char} {ps : List Piece} {cs : List Char} :
    accepts (literal.map .char ++ ps) cs = true ↔ ∃ left, cs = literal ++ left ∧ accepts ps left = true := by
  induction literal generalizing cs with
  | nil => simp
  | cons c literal ih =>
    rw [List.map_cons, List.cons_append]
    cases cs with
    | nil => simp [accepts]
    | cons c' cs =>
      rw [accepts.eq_4 (.char c) _ _ _ (by simp) (by simp), Bool.and_eq_true, ih, Piece.takes, beq_iff_eq]
      constructor
      · rintro ⟨rfl, left, rfl, hleft⟩
        exact ⟨left, rfl, hleft⟩
      · rintro ⟨left, hcs, hleft⟩
        cases hcs
        exact ⟨rfl, left, rfl, hleft⟩

theorem not_isWildcard_of_mem {text : String} (h : Path.hasWildcard text = false) :
    ∀ c ∈ text.toList, Path.isWildcard c = false := by
  intro c hc
  by_contra hwild
  rw [Path.hasWildcard, ← Bool.not_eq_true, List.any_eq_true] at h
  exact h ⟨c, hc, by simpa using hwild⟩

/-- A pattern without wildcards matches itself. -/
theorem compile_literal {pattern : String} (h : Path.hasWildcard pattern = false) :
    ∃ ps, compile pattern = .ok ps ∧ ∀ cs, accepts ps cs = true ↔ cs = pattern.toList := by
  obtain ⟨i, hi⟩ := compileFrom_literal (not_isWildcard_of_mem h) 0 none [] []
  rw [List.append_nil, List.append_nil, compileFrom, List.reverse_reverse, ← List.append_nil (List.map _ _)] at hi
  refine ⟨_, hi, fun cs => ?_⟩
  rw [accepts_literal]
  simp [accepts]

/-- A pattern below a root without wildcards is one if what is below the root is, and matches the paths below the root
of which that matches the rest. -/
theorem compile_below {root : String} (h : Path.hasWildcard root = false) (rest : String) :
    (∃ f g, compile (root ++ "/" ++ rest) = .error f ∧ compile rest = .error g ∧ g.kind = f.kind) ∨
      ∃ ps qs, compile (root ++ "/" ++ rest) = .ok ps ∧ compile rest = .ok qs ∧
        ∀ cs, accepts ps cs = true ↔ ∃ left, cs = (root ++ "/").toList ++ left ∧ accepts qs left = true := by
  have hplain : ∀ c ∈ (root ++ "/").toList, Path.isWildcard c = false := by
    intro c hc
    rw [String.toList_append, List.mem_append] at hc
    rcases hc with hc | hc
    · exact not_isWildcard_of_mem h c hc
    · obtain rfl : c = '/' := by simpa using hc
      rfl
  obtain ⟨i, hi⟩ := compileFrom_literal hplain 0 none [] rest.toList
  have hlast : (root ++ "/").toList.getLast?.or none = some '/' := by simp
  rw [← String.toList_append, hlast, List.append_nil] at hi
  have hdeep : lastDeep [] = lastDeep ((root ++ "/").toList.map .char).reverse := by simp [lastDeep]
  have hbefore : Option.all (· == '/') none = Option.all (· == '/') (some '/') := rfl
  have hread : Corresponds [] _ (compileFrom 0 none [] rest.toList) (compileFrom i (some '/') _ rest.toList) :=
    corresponds_compileFrom hbefore hdeep rest.toList
  rw [compile, compile, hi]
  generalize compileFrom 0 none [] rest.toList = x at hread ⊢
  generalize compileFrom i (some '/') _ rest.toList = x' at hread ⊢
  cases hread with
  | refused kind => exact .inl ⟨_, _, rfl, rfl, kind⟩
  | @read qs ps same =>
    rw [← hdeep, lastDeep, if_neg (by simp), List.nil_append, List.nil_append] at same
    refine .inr ⟨_, _, rfl, rfl, fun cs => ?_⟩
    rw [List.reverse_reverse, accepts_literal, List.reverse_nil, List.nil_append, same]

/-! ## The root of a pattern -/

section
variable {pattern : String} {root rest : List String}

theorem mem_root {name : String} (hsplit : splitRoot pattern = (root, rest)) (hname : name ∈ root) :
    '/' ∉ name.toList ∧ Path.hasWildcard name = false := by
  rw [splitRoot_eq] at hsplit
  obtain ⟨rfl, -⟩ := Prod.mk.inj hsplit
  refine ⟨not_mem_of_mem_segments ((List.takeWhile_prefix _).subset hname), ?_⟩
  simpa using List.mem_takeWhile_imp hname

theorem slash_not_mem_rest {name : String} (hsplit : splitRoot pattern = (root, rest)) (hname : name ∈ rest) :
    '/' ∉ name.toList :=
  not_mem_of_mem_segments (mem_segments_of_mem_splitRoot (by rwa [hsplit]))

theorem hasWildcard_root (hsplit : splitRoot pattern = (root, rest)) :
    Path.hasWildcard (joinSegments root) = false := by
  rw [Path.hasWildcard, joinSegments, String.toList_ofList, List.any_eq_false]
  intro c hc
  rcases Text.mem_joinWith hc with rfl | ⟨piece, hpiece, hmem⟩
  · decide
  · obtain ⟨name, hname, rfl⟩ := List.mem_map.mp hpiece
    simp [not_isWildcard_of_mem (mem_root hsplit hname).2 c hmem]

theorem root_append_rest (hsplit : splitRoot pattern = (root, rest)) : root ++ rest = segments pattern := by
  rw [splitRoot_eq] at hsplit
  obtain ⟨rfl, rfl⟩ := Prod.mk.inj hsplit
  exact List.takeWhile_append_dropWhile

/-- The first pieces match the paths that go on from the root by names that the second ones match. -/
def Extends (root : List String) (ps qs : List Piece) : Prop :=
  ∀ names, names ≠ [] → (∀ name ∈ names, '/' ∉ name.toList) →
    (accepts ps (joinSegments names).toList = true ↔ ∃ more, more ≠ [] ∧ names = root ++ more ∧
      accepts qs (joinSegments more).toList = true)

theorem Extends.refl (ps : List Piece) : Extends [] ps ps := by
  intro names hne _
  constructor
  · exact fun h => ⟨names, hne, rfl, h⟩
  · rintro ⟨more, -, rfl, h⟩
    exact h

/-- The whole pattern matches a path if it goes on from the root by names that the rest of the pattern matches. -/
theorem compile_splitRoot (hsplit : splitRoot pattern = (root, rest)) (hrest : rest ≠ []) :
    (∃ f g, compile pattern = .error f ∧ compile (joinSegments rest) = .error g) ∨
      ∃ ps qs, compile pattern = .ok ps ∧ compile (joinSegments rest) = .ok qs ∧ Extends root ps qs := by
  have hpattern := Local.joinSegments_splitRoot hsplit
  by_cases hroot : root = []
  · -- the pattern has no root
    subst hroot
    rw [List.nil_append] at hpattern
    rw [← hpattern]
    cases compile (joinSegments rest) with
    | error f => exact .inl ⟨f, f, rfl, rfl⟩
    | ok ps => exact .inr ⟨ps, ps, rfl, rfl, .refl ps⟩
  rw [Local.joinSegments_append hroot hrest] at hpattern
  rw [← hpattern]
  rcases compile_below (hasWildcard_root hsplit) (joinSegments rest) with
    ⟨f, g, hf, hg, -⟩ | ⟨ps, qs, hps, hqs, hsame⟩
  · exact .inl ⟨f, g, hf, hg⟩
  refine .inr ⟨ps, qs, hps, hqs, fun names hne hfree => ?_⟩
  rw [hsame]
  constructor
  · rintro ⟨left, hleft, haccepts⟩
    have htext : joinSegments names = joinSegments root ++ "/" ++ String.ofList left := by
      apply String.ext
      simp [hleft]
    have hnames : names = root ++ segments (String.ofList left) := by
      rw [← segments_joinSegments hne hfree, htext]
      refine (Local.pieces_append _ _).trans (congrArg (· ++ _) ?_)
      exact segments_joinSegments hroot fun name hname => (mem_root hsplit hname).1
    refine ⟨_, segments_ne_nil _, hnames, ?_⟩
    rw [joinSegments_segments, String.toList_ofList]
    exact haccepts
  · rintro ⟨more, hmore, rfl, haccepts⟩
    refine ⟨(joinSegments more).toList, ?_, haccepts⟩
    rw [Local.joinSegments_append hroot hmore, String.toList_append]

end

end Transclusion.Glob
