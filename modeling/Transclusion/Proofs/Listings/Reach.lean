import Mathlib.Data.List.Basic
import Mathlib.Data.List.TakeDrop
import Mathlib.Data.List.TakeWhile
import Transclusion.Glob.Root

/-!
# How far down a pattern reaches

* `Glob.Spells before cs ps` : the text `cs` spells the pieces `ps` where the character `before`
  precedes it; `Glob.spells_of_compile` : a pattern that compiles spells its pieces;
* `Glob.Spells.count_slash_le`, `Glob.Spells.deep_segment` : the pieces have no more slashes than
  the text, and `**` is among them only where it is a segment of the text;
* `Glob.count_slash_of_accepts` : without `**` a text that is accepted has the slashes of the pieces;
* `Glob.Matcher.length_le_of_accepts` : so a match has at most as many names as the pattern has
  segments.
-/

namespace Transclusion.Glob

open Text

/-! ## What the pieces of a pattern are -/

theorem toBracket_eq_some {cs inner rest : List Char} (h : toBracket cs = some (inner, rest)) :
    cs = inner ++ ']' :: rest := by
  induction cs generalizing inner with
  | nil => cases h
  | cons c cs ih =>
    by_cases hc : c = ']'
    · simp only [toBracket, hc, ↓reduceIte, Option.some.injEq, Prod.mk.injEq] at h
      obtain ⟨rfl, rfl⟩ := h
      simp [hc]
    · simp only [toBracket, hc, ↓reduceIte, Option.map_eq_some_iff, Prod.exists, Prod.mk.injEq] at h
      obtain ⟨inner', rest', hin, rfl, rfl⟩ := h
      rw [ih hin]
      rfl

/-- A bracket is a class of characters, and ends with its closing one. -/
theorem bracket_eq_some {cs rest : List Char} {p : Piece} (h : bracket cs = some (p, rest)) :
    (∃ inner, cs = inner ++ ']' :: rest) ∧ ∃ rs, p = .within rs ∨ p = .without rs := by
  unfold bracket at h
  split at h
  · obtain ⟨⟨inner, rest'⟩, hin, heq⟩ := Option.map_eq_some_iff.mp h
    obtain ⟨rfl, rfl⟩ := heq
    exact ⟨⟨'!' :: _ :: inner, by rw [toBracket_eq_some hin]; rfl⟩, _, .inr rfl⟩
  · cases h
  · obtain ⟨⟨inner, rest'⟩, hin, heq⟩ := Option.map_eq_some_iff.mp h
    obtain ⟨rfl, rfl⟩ := heq
    exact ⟨⟨_ :: inner, by rw [toBracket_eq_some hin]; rfl⟩, _, .inl rfl⟩
  · cases h

/-- The text of a piece other than `**`. -/
def Piece.SpelledBy : Piece → List Char → Prop
  | .char c, cs => cs = [c]
  | .anyChar, cs => cs = ['?']
  | .run, cs => cs = ['*']
  | .within _, cs => ∃ inner, cs = '[' :: inner ++ [']']
  | .without _, cs => ∃ inner, cs = '[' :: inner ++ [']']
  | .deep, _ => False

theorem Piece.SpelledBy.getLast?_append {p : Piece} {taken : List Char} (h : p.SpelledBy taken)
    (front : List Char) : (front ++ taken).getLast? = taken.getLast? := by
  have hne : taken ≠ [] := by
    rintro rfl
    cases p <;> simp [Piece.SpelledBy] at h
  rw [List.getLast?_append_of_ne_nil _ hne]

/-- The text `cs`, with the character `before` in front of it, spells these pieces. A `**` may be
left out after another. -/
inductive Spells : (before : Option Char) → (cs : List Char) → (ps : List Piece) → Prop
  | nil {before} : Spells before [] []
  | piece {before p taken cs ps} (spelled : p.SpelledBy taken) (rest : Spells taken.getLast? cs ps) :
      Spells before (taken ++ cs) (p :: ps)
  | deepEnd {before ps} (whole : before.all (· == '/')) (deep : ps = [] ∨ ps = [.deep]) :
      Spells before ['*', '*'] ps
  | deep {before cs ps ps'} (whole : before.all (· == '/')) (rest : Spells (some '/') cs ps)
      (deep : ps' = ps ∨ ps' = .deep :: ps) : Spells before ('*' :: '*' :: '/' :: cs) ps'

theorem Spells.one {before : Option Char} {c : Char} {p : Piece} {cs : List Char} {ps : List Piece}
    (spelled : p.SpelledBy [c]) (rest : Spells (some c) cs ps) : Spells before (c :: cs) (p :: ps) :=
  Spells.piece spelled rest

theorem spells_of_compileFrom {i : Nat} {before : Option Char} {done ps : List Piece} {cs : List Char}
    (h : compileFrom i before done cs = .ok ps) :
    ∃ ps', ps = done.reverse ++ ps' ∧ Spells before cs ps' := by
  -- the pieces that a `**` adds to those already read
  have hdeep : ∀ done : List Piece, ∃ ds, (ds = [] ∨ ds = [.deep]) ∧
      (if endsDeep done then done else .deep :: done).reverse = done.reverse ++ ds := by
    intro done
    split
    · exact ⟨[], .inl rfl, (List.append_nil _).symm⟩
    · exact ⟨[.deep], .inr rfl, List.reverse_cons⟩
  fun_induction compileFrom i before done cs with
  | case1 => cases h; exact ⟨[], (List.append_nil _).symm, .nil⟩
  | case2 i before done rest ih =>
    obtain ⟨ps', rfl, hps⟩ := ih h
    exact ⟨.anyChar :: ps', by simp, .one rfl hps⟩
  | case3 => cases h
  | case4 i before done whole done' =>
    obtain ⟨ds, hds, heq⟩ := hdeep done
    cases h
    exact ⟨ds, heq, .deepEnd whole hds⟩
  | case5 i before done whole done' rest _ ih =>
    obtain ⟨ds, hds, heq⟩ := hdeep done
    obtain ⟨ps', rfl, hps⟩ := ih h
    refine ⟨ds ++ ps', by rw [← List.append_assoc]; exact congrArg (· ++ ps') heq, .deep whole hps ?_⟩
    rcases hds with rfl | rfl
    · exact .inl rfl
    · exact .inr rfl
  | case6 => cases h
  | case7 => cases h
  | case8 i before done rest _ _ ih =>
    obtain ⟨ps', rfl, hps⟩ := ih h
    exact ⟨.run :: ps', by simp, .one rfl hps⟩
  | case9 i before done rest p rest' hb ih =>
    obtain ⟨ps', rfl, hps⟩ := ih h
    obtain ⟨⟨inner, rfl⟩, rs, hp⟩ := bracket_eq_some hb
    have hlast : ('[' :: inner ++ [']']).getLast? = some ']' := List.getLast?_concat
    have hspelled : p.SpelledBy ('[' :: inner ++ [']']) := by
      rcases hp with rfl | rfl <;> exact ⟨inner, rfl⟩
    refine ⟨p :: ps', by simp, ?_⟩
    have hwhole : Spells before (('[' :: inner ++ [']']) ++ rest') (p :: ps') :=
      .piece hspelled (by rwa [hlast])
    simpa using hwhole
  | case10 => cases h
  | case11 i before done c rest _ _ _ _ _ ih =>
    obtain ⟨ps', rfl, hps⟩ := ih h
    exact ⟨.char c :: ps', by simp, .one rfl hps⟩

theorem spells_of_compile {pattern : String} {ps : List Piece} (h : compile pattern = .ok ps) :
    Spells none pattern.toList ps := by
  obtain ⟨ps', rfl, hps⟩ := spells_of_compileFrom h
  exact hps

namespace Spells

variable {before : Option Char} {cs : List Char} {ps : List Piece}

/-- Each slash among the pieces is one of the text. -/
theorem count_slash_le (h : Spells before cs ps) : ps.count (.char '/') ≤ cs.count '/' := by
  induction h with
  | nil => exact Nat.le_refl 0
  | @piece _ p taken cs ps spelled _ ih =>
    have hone : [p].count (.char '/') ≤ taken.count '/' := by
      by_cases hp : p = .char '/'
      · subst hp
        rw [show taken = ['/'] from spelled]
        decide
      · simp [hp]
    rw [List.count_append, ← List.singleton_append, List.count_append]
    omega
  | deepEnd _ hps => rcases hps with rfl | rfl <;> simp
  | deep _ _ hps ih => rcases hps with rfl | rfl <;> simp <;> omega

theorem mem_splitOn_of_whole {piece front : List Char} (hpiece : '/' ∉ piece)
    (hfront : front.getLast?.all (· == '/')) : piece ∈ splitOn '/' (front ++ piece) := by
  rcases List.eq_nil_or_concat front with rfl | ⟨init, c, rfl⟩
  · rw [List.nil_append, splitOn_of_not_mem hpiece]
    exact List.mem_singleton_self piece
  · obtain rfl : c = '/' := by simpa using hfront
    rw [List.concat_eq_append, List.append_assoc, List.singleton_append, splitOn_append,
      splitOn_of_not_mem hpiece]
    exact List.mem_append_right _ (List.mem_singleton_self piece)

/-- Where `**` is among the pieces, it is all that stands between two slashes of the text. -/
theorem deep_segment (h : Spells before cs ps) (hdeep : .deep ∈ ps) {front : List Char}
    (hfront : front.getLast? = before) : ['*', '*'] ∈ splitOn '/' (front ++ cs) := by
  have hstars : '/' ∉ ['*', '*'] := by decide
  induction h generalizing front with
  | nil => cases hdeep
  | @piece _ p taken cs ps spelled _ ih =>
    have hmem : .deep ∈ ps := by
      rcases List.mem_cons.mp hdeep with rfl | hmem
      · exact spelled.elim
      · exact hmem
    rw [← List.append_assoc]
    exact ih hmem (spelled.getLast?_append front)
  | deepEnd whole _ => exact mem_splitOn_of_whole hstars (by rw [hfront]; exact whole)
  | @deep _ cs _ _ whole _ _ _ =>
    have hsplit : front ++ '*' :: '*' :: '/' :: cs = (front ++ ['*', '*']) ++ '/' :: cs := by simp
    rw [hsplit, splitOn_append]
    exact List.mem_append_left _ (mem_splitOn_of_whole hstars (by rw [hfront]; exact whole))

end Spells

/-! ## What a pattern without `**` accepts -/

theorem afterRun_eq_true {rest : List Char → Bool} {cs : List Char} (h : afterRun rest cs = true) :
    ∃ skipped left, cs = skipped ++ left ∧ '/' ∉ skipped ∧ rest left = true := by
  induction cs with
  | nil => exact ⟨[], [], rfl, List.not_mem_nil, h⟩
  | cons c cs ih =>
    simp only [afterRun, Bool.or_eq_true, Bool.and_eq_true, bne_iff_ne, ne_eq] at h
    rcases h with h | ⟨hc, h⟩
    · exact ⟨[], c :: cs, rfl, List.not_mem_nil, h⟩
    · obtain ⟨skipped, left, rfl, hskipped, hleft⟩ := ih h
      exact ⟨c :: skipped, left, rfl, by simp [Ne.symm hc, hskipped], hleft⟩

theorem accepts_cons_of_single {p : Piece} {ps : List Piece} {cs : List Char} (hrun : p ≠ .run)
    (hdeep : p ≠ .deep) (h : accepts (p :: ps) cs = true) :
    ∃ c rest, cs = c :: rest ∧ p.takes c = true ∧ accepts ps rest = true := by
  cases cs with
  | nil => cases p <;> simp_all [accepts]
  | cons c rest =>
    have htakes : p.takes c = true ∧ accepts ps rest = true := by
      cases p <;> simp_all [accepts]
    exact ⟨c, rest, rfl, htakes⟩

theorem Piece.takes_slash {p : Piece} {c : Char} (h : p.takes c = true) : c = '/' ↔ p = .char '/' := by
  cases p <;> simp_all [Piece.takes]

/-- Without `**`, a text that is accepted has the slashes of the pieces. -/
theorem count_slash_of_accepts {ps : List Piece} {cs : List Char} (h : accepts ps cs = true)
    (hdeep : .deep ∉ ps) : cs.count '/' = ps.count (.char '/') := by
  induction ps generalizing cs with
  | nil =>
    obtain rfl : cs = [] := by simpa [accepts] using h
    rfl
  | cons p ps ih =>
    obtain ⟨hp, hps⟩ : .deep ≠ p ∧ .deep ∉ ps := by simpa using hdeep
    by_cases hrun : p = .run
    · subst hrun
      obtain ⟨skipped, left, rfl, hskipped, hleft⟩ := afterRun_eq_true (by simpa [accepts] using h)
      rw [List.count_append, List.count_eq_zero_of_not_mem hskipped, ih hleft hps]
      simp
    · obtain ⟨c, rest, rfl, htakes, hrest⟩ := accepts_cons_of_single hrun hp.symm h
      have hslash := Piece.takes_slash htakes
      by_cases hc : c = '/'
      · simp [hc, hslash.mp hc, ih hrest hps]
      · rw [List.count_cons_of_ne hc, List.count_cons_of_ne fun heq => hc (hslash.mpr heq),
          ih hrest hps]

/-! ## Names and segments -/

theorem not_mem_of_mem_segments {path s : String} (h : s ∈ segments path) : '/' ∉ s.toList := by
  obtain ⟨piece, hpiece, rfl⟩ := List.mem_map.mp h
  rw [String.toList_ofList]
  exact not_mem_of_mem_splitOn hpiece

theorem length_segments (path : String) : (segments path).length = path.toList.count '/' + 1 := by
  rw [segments, List.length_map, length_splitOn]

theorem segments_ne_nil (path : String) : segments path ≠ [] := by
  simpa [segments] using splitOn_ne_nil '/' path.toList

theorem segments_joinSegments {l : List String} (hne : l ≠ []) (hfree : ∀ s ∈ l, '/' ∉ s.toList) :
    segments (joinSegments l) = l := by
  have hpieces : ∀ piece ∈ l.map String.toList, '/' ∉ piece := by
    intro piece hpiece
    obtain ⟨s, hs, rfl⟩ := List.mem_map.mp hpiece
    exact hfree s hs
  rw [segments, joinSegments, String.toList_ofList, splitOn_joinWith (by simpa using hne) hpieces,
    List.map_map]
  exact List.map_id'' (fun s => String.ofList_toList) l

theorem joinSegments_segments (text : String) : joinSegments (segments text) = text := by
  have hpieces : (segments text).map String.toList = splitOn '/' text.toList := by
    simp [segments, Function.comp_def]
  rw [joinSegments, hpieces, joinWith_splitOn, String.ofList_toList]

theorem splitRoot_eq (path : String) : splitRoot path =
    ((segments path).takeWhile fun s => !Path.hasWildcard s,
      (segments path).dropWhile fun s => !Path.hasWildcard s) :=
  List.span_eq_takeWhile_dropWhile _ _

theorem mem_segments_of_mem_splitRoot {path s : String} (h : s ∈ (splitRoot path).2) :
    s ∈ segments path := by
  rw [splitRoot_eq] at h
  exact (List.dropWhile_suffix _).subset h

/-- A pattern with a wildcard has a segment from which on it is matched. -/
theorem splitRoot_snd_ne_nil {path : String} (h : Path.hasWildcard path = true) :
    (splitRoot path).2 ≠ [] := by
  obtain ⟨c, hc, hwild⟩ := List.any_eq_true.mp h
  have hslash : c ≠ '/' := by
    rintro rfl
    cases hwild
  -- the segment that holds the wildcard
  rw [← joinWith_splitOn '/' path.toList] at hc
  obtain ⟨piece, hpiece, hmem⟩ := (mem_joinWith hc).resolve_left hslash
  have hseg : Path.hasWildcard (String.ofList piece) = true :=
    List.any_eq_true.mpr ⟨c, by rwa [String.toList_ofList], hwild⟩
  intro hnil
  rw [splitRoot_eq] at hnil
  have hplain := List.dropWhile_eq_nil_iff.mp hnil _ (List.mem_map.mpr ⟨piece, hpiece, rfl⟩)
  simp [hseg] at hplain

/-- A match of a pattern without `**` has at most as many names as the pattern has segments. -/
theorem Matcher.length_segments_le {pattern path : String} {p : Matcher}
    (h : Matcher.ofText pattern = .ok p) (hdeep : deepSegment ∉ segments pattern)
    (haccepts : p.accepts path = true) : (segments path).length ≤ (segments pattern).length := by
  have hpieces : compile pattern = .ok p.pieces := by
    unfold Matcher.ofText at h
    cases hc : compile pattern with
    | error f => rw [hc] at h; cases h
    | ok ps => rw [hc] at h; cases h; rfl
  have hspells := spells_of_compile hpieces
  have hnone : .deep ∉ p.pieces := by
    intro hmem
    have hstars : ['*', '*'] ∈ splitOn '/' pattern.toList := by
      simpa using hspells.deep_segment hmem (show [].getLast? = none from rfl)
    exact hdeep (List.mem_map.mpr ⟨_, hstars, rfl⟩)
  have hslashes := count_slash_of_accepts haccepts hnone
  have hle := hspells.count_slash_le
  rw [length_segments, length_segments]
  omega

end Transclusion.Glob
