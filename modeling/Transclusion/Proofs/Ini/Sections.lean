import Transclusion.Proofs.Ini.Fields

/-!
# The sections of an INI text

* `Ini.Document.Reads` : a document is what has been read of the lines;
* `Ini.Document.Reads.addLine_eq` : what one more line does, by its role;
* `Ini.Document.Reads.addLines` : all lines are read, or the first that cannot be is told.
-/

namespace Transclusion
namespace Ini

variable {rs own above : List Role} {r : Role} {name : String} {before : List (String × List Role)}
  {lines : List (List Char)} {raw line : List Char}

/-! ## Lines by their first characters -/

theorem isInsignificant_iff :
    isInsignificant line = true ↔ line = [] ∨ line.head? = some '#' ∨ line.head? = some ';' := by
  cases line <;> simp [isInsignificant]

theorem isIndented_iff : isIndented raw = true ↔ raw.head? = some ' ' ∨ raw.head? = some '\t' := by
  simp [isIndented]

theorem bracketed?_eq (line : List Char) :
    bracketed? line = if 2 ≤ line.length ∧ line.head? = some '[' ∧ line.getLast? = some ']' then
      some line.tail.dropLast else none := by
  unfold bracketed?
  split
  · rename_i rest
    cases rest with
    | nil => simp
    | cons c rest => simp [List.getLast?_cons_cons]
  · rename_i hne
    rw [if_neg]
    rintro ⟨-, hhead, -⟩
    obtain ⟨rest, rfl⟩ := List.head?_eq_some_iff.mp hhead
    exact hne rest rfl

theorem dropWhile_sign_eq_nil_iff :
    (line.dropWhile fun c => !endsKey c) = [] ↔ '=' ∉ line ∧ ':' ∉ line := by
  rw [Text.dropWhile_eq_nil_iff, List.all_eq_true]
  simp only [endsKey, Bool.not_eq_true', Bool.or_eq_false_iff, beq_eq_false_iff_ne]
  constructor
  · intro h
    exact ⟨fun hmem => (h _ hmem).1 rfl, fun hmem => (h _ hmem).2 rfl⟩
  · rintro ⟨hequals, hcolon⟩ c hc
    exact ⟨fun heq => hequals (heq ▸ hc), fun heq => hcolon (heq ▸ hc)⟩

theorem Line.ofText_eq (line : List Char) :
    Line.ofText line =
      if 2 ≤ line.length ∧ line.head? = some '[' ∧ line.getLast? = some ']' then
        .header (String.ofList (Text.trimChars line.tail.dropLast))
      else if '=' ∉ line ∧ ':' ∉ line then .other
      else .entry (keyOf line) (valueOf line) := by
  unfold ofText
  rw [bracketed?_eq]
  by_cases hheader : 2 ≤ line.length ∧ line.head? = some '[' ∧ line.getLast? = some ']'
  · rw [if_pos hheader, if_pos hheader]
  · rw [if_neg hheader, if_neg hheader]
    simp only [← dropWhile_sign_eq_nil_iff]
    cases hdrop : line.dropWhile fun c => !endsKey c with
    | nil => simp
    | cons c value => simp [keyOf, valueOf, hdrop]

/-! ## Sections line by line -/

theorem openRoles_of_blocks (h : blocks rs = before ++ [(name, own)]) :
    openRoles rs = if name = defaultSection then defaultRoles rs else own := by
  simp [openRoles, h]

theorem openRoles_concat (hr : r.isHeader = false) (hopen : blocks rs ≠ []) :
    openRoles (rs ++ [r]) = openRoles rs ++ [r] := by
  rcases blocks_concat rs hr with ⟨hnil, -⟩ | ⟨before, name, own, hrs, hnew⟩
  · exact absurd hnil hopen
  · rw [openRoles_of_blocks hrs, openRoles_of_blocks hnew]
    split
    · rename_i hname
      simp [defaultRoles, hrs, hnew, hname]
    · rfl

def complaint (number : Nat) (line : List Char) : IniFault :=
  if '=' ∉ line ∧ ':' ∉ line then .noSeparator number (String.ofList line) else .noSection number

namespace Document

/-- The document is what has been read of the lines. -/
structure Reads (d : Document) (rs : List Role) : Prop where
  defaults : d.defaults = Fields.ofRoles (defaultRoles rs)
  sections : d.sections.reverse = (otherBlocks rs).map fun b => (b.1, Fields.ofRoles b.2)
  inDefault : d.inDefault = (blocks rs).getLast?.any fun b => b.1 = defaultSection

variable {d : Document}

theorem reads_nil : Reads {} [] := ⟨rfl, rfl, rfl⟩

theorem Reads.of_blocks {rs' : List Role} (h : d.Reads rs) (hblocks : blocks rs' = blocks rs) : d.Reads rs' := by
  obtain ⟨hdefaults, hsections, hin⟩ := h
  constructor
  · rwa [defaultRoles, hblocks]
  · rwa [otherBlocks, hblocks]
  · rwa [hblocks]

theorem Reads.sections_eq (h : d.Reads rs) (hrs : blocks rs = before ++ [(name, own)]) (hname : name ≠ defaultSection) :
    ∃ rest, d.sections = (name, Fields.ofRoles own) :: rest ∧
      rest.reverse = ((before.filter fun b => b.1 ≠ defaultSection).map fun b => (b.1, Fields.ofRoles b.2)) := by
  have hsections := congrArg List.reverse h.sections
  rw [List.reverse_reverse, otherBlocks, hrs] at hsections
  simp only [List.filter_append, List.map_append, List.reverse_append] at hsections
  refine ⟨_, hsections.trans ?_, List.reverse_reverse _⟩
  simp [hname]

theorem Reads.current? (h : d.Reads rs) :
    d.current? = if blocks rs = [] then none else some (Fields.ofRoles (openRoles rs)) := by
  rcases List.eq_nil_or_concat (blocks rs) with hnil | ⟨before, ⟨name, own⟩, hrs⟩
  · have hsections : d.sections = [] := by
      have := h.sections
      rw [otherBlocks, hnil] at this
      simpa using this
    have hin : d.inDefault = false := by
      rw [h.inDefault, hnil]
      rfl
    rw [if_pos hnil, Document.current?, hin, hsections]
    rfl
  · rw [List.concat_eq_append] at hrs
    have hin : d.inDefault = decide (name = defaultSection) := by
      rw [h.inDefault, hrs]
      simp
    rw [if_neg (by simp [hrs]), openRoles_of_blocks hrs, Document.current?, hin]
    by_cases hname : name = defaultSection
    · simp [hname, h.defaults]
    · obtain ⟨rest, hsections, -⟩ := h.sections_eq hrs hname
      simp [hname, hsections]

theorem Reads.setCurrent (h : d.Reads rs) (hr : r.isHeader = false) (hopen : blocks rs ≠ []) :
    (d.setCurrent ((Fields.ofRoles (openRoles rs)).addRole r)).Reads (rs ++ [r]) := by
  rcases blocks_concat rs hr with ⟨hnil, -⟩ | ⟨before, name, own, hrs, hnew⟩
  · exact absurd hnil hopen
  have hin : d.inDefault = decide (name = defaultSection) := by
    rw [h.inDefault, hrs]
    simp
  rw [← Fields.ofRoles_concat, ← openRoles_concat hr hopen, openRoles_of_blocks hnew, Document.setCurrent, hin]
  by_cases hname : name = defaultSection
  · simp only [hname, decide_true, if_true]
    constructor
    · rfl
    · show d.sections.reverse = _
      rw [h.sections, otherBlocks, otherBlocks, hrs, hnew]
      simp [hname]
    · rw [hnew]
      simp [hname]
  · obtain ⟨rest, hsections, hrest⟩ := h.sections_eq hrs hname
    simp only [hname, decide_false, Bool.false_eq_true, if_false, hsections]
    constructor
    · show d.defaults = _
      rw [h.defaults, defaultRoles, defaultRoles, hrs, hnew]
      simp [hname]
    · show ((name, _) :: rest).reverse = _
      rw [List.reverse_cons, hrest, otherBlocks, hnew]
      simp [hname]
    · rw [hnew]
      simp [hname]

theorem Reads.openSection (h : d.Reads rs) (name : String) : (d.openSection name).Reads (rs ++ [.header name]) := by
  have hnew := blocks_concat_header rs name
  unfold Document.openSection
  split
  · rename_i hname
    subst hname
    constructor
    · show d.defaults = _
      rw [h.defaults, defaultRoles, defaultRoles, hnew]
      simp
    · show d.sections.reverse = _
      rw [h.sections, otherBlocks, otherBlocks, hnew]
      simp
    · rw [hnew]
      simp
  · rename_i hname
    constructor
    · show d.defaults = _
      rw [h.defaults, defaultRoles, defaultRoles, hnew]
      simp [hname]
    · show ((name, []) :: d.sections).reverse = _
      rw [List.reverse_cons, h.sections, otherBlocks, otherBlocks, hnew]
      simp [hname, Fields.ofRoles]
    · rw [hnew]
      simp [hname]

/-! ### One line -/

theorem openRoles_eq_nil (h : blocks rs = []) : openRoles rs = [] := by
  simp [openRoles, h]

theorem Reads.any_current? (h : d.Reads rs) :
    (d.current?.any fun fs => !fs.isEmpty) = (openRoles rs).any Role.isEntry := by
  rw [h.current?]
  by_cases hnil : blocks rs = []
  · simp [hnil, openRoles_eq_nil hnil]
  · rw [if_neg hnil, Option.any_some]
    rw [Bool.eq_iff_iff, Bool.not_eq_true', List.isEmpty_eq_false_iff, Ne, Fields.ofRoles_eq_nil_iff,
      Bool.not_eq_false]

/-- What one more line does, by its role. -/
theorem Reads.addLine_eq (h : d.Reads rs) (number : Nat) (raw : List Char) :
    d.addLine number raw = match Role.below rs raw with
      | .entry line =>
        if ('=' ∉ line ∧ ':' ∉ line) ∨ blocks rs = [] then .error (complaint number line)
        else .ok (d.setCurrent ((Fields.ofRoles (openRoles rs)).addRole (.entry line)))
      | .continuation line => .ok (d.setCurrent ((Fields.ofRoles (openRoles rs)).addRole (.continuation line)))
      | .header name => .ok (d.openSection name)
      | .nothing => .ok d := by
  unfold Document.addLine Role.below
  simp only [isInsignificant_iff, Bool.and_eq_true, isIndented_iff, h.any_current?, Line.ofText_eq]
  generalize Text.trimChars raw = line
  by_cases hnothing : line = [] ∨ line.head? = some '#' ∨ line.head? = some ';'
  · simp only [if_pos hnothing]
  simp only [if_neg hnothing]
  by_cases hindented : (raw.head? = some ' ' ∨ raw.head? = some '\t') ∧ (openRoles rs).any Role.isEntry = true
  · have hopen : blocks rs ≠ [] := by
      intro hnil
      simp [openRoles_eq_nil hnil] at hindented
    simp only [if_pos hindented, h.current?, if_neg hopen]
    rfl
  simp only [if_neg hindented]
  by_cases hheader : 2 ≤ line.length ∧ line.head? = some '[' ∧ line.getLast? = some ']'
  · simp only [if_pos hheader]
  simp only [if_neg hheader]
  by_cases hsign : '=' ∉ line ∧ ':' ∉ line
  · simp only [if_pos hsign, if_pos (Or.inl hsign), complaint]
  simp only [if_neg hsign, h.current?]
  by_cases hnil : blocks rs = []
  · simp only [if_pos hnil, if_pos (Or.inr hnil), complaint, if_neg hsign]
  · simp only [if_neg hnil, if_neg (not_or.mpr ⟨hsign, hnil⟩)]
    rfl

theorem setCurrent_self {fs : Fields} (h : d.current? = some fs) : d.setCurrent fs = d := by
  obtain ⟨defaults, sections, inDefault⟩ := d
  cases inDefault with
  | true =>
    cases h
    rfl
  | false =>
    cases sections with
    | nil => cases h
    | cons s rest =>
      cases h
      rfl

theorem Reads.nothing (h : d.Reads rs) : d.Reads (rs ++ [.nothing]) := by
  by_cases hnil : blocks rs = []
  · rcases blocks_concat rs (r := .nothing) rfl with ⟨-, hnew⟩ | ⟨before, name, own, hrs, -⟩
    · exact h.of_blocks (hnew.trans hnil.symm)
    · simp [hrs] at hnil
  · have hself : d.setCurrent (Fields.ofRoles (openRoles rs)) = d := by
      apply setCurrent_self
      rw [h.current?, if_neg hnil]
    have hread := h.setCurrent (r := .nothing) rfl hnil
    rwa [show (Fields.ofRoles (openRoles rs)).addRole .nothing = Fields.ofRoles (openRoles rs) from rfl, hself]
      at hread

theorem illAt_concat : IllAt (rs ++ [r]) rs.length line ↔
    r = .entry line ∧ (('=' ∉ line ∧ ':' ∉ line) ∨ blocks rs = []) := by
  simp [IllAt]

theorem any_isEntry_of_below {line : String} (h : Role.below rs raw = .continuation line) :
    (openRoles rs).any Role.isEntry = true := by
  unfold Role.below at h
  dsimp only at h
  split at h
  · cases h
  split at h
  · rename_i hindented
    exact hindented.2
  split at h <;> cases h

/-- One more line is read, or cannot be and is told. -/
theorem Reads.addLine (h : d.Reads rs) (number : Nat) (raw : List Char) :
    (∃ d', d.addLine number raw = .ok d' ∧ d'.Reads (rs ++ [Role.below rs raw]) ∧
        ∀ line, ¬ IllAt (rs ++ [Role.below rs raw]) rs.length line) ∨
      ∃ line, d.addLine number raw = .error (complaint number line) ∧
        IllAt (rs ++ [Role.below rs raw]) rs.length line := by
  rw [h.addLine_eq]
  simp only [illAt_concat]
  cases hbelow : Role.below rs raw with
  | nothing =>
    exact .inl ⟨d, rfl, h.nothing, by simp⟩
  | continuation line =>
    refine .inl ⟨_, rfl, h.setCurrent rfl fun hnil => ?_, by simp⟩
    have hany := any_isEntry_of_below hbelow
    rw [openRoles_eq_nil hnil] at hany
    cases hany
  | header name => exact .inl ⟨_, rfl, h.openSection name, by simp⟩
  | entry line =>
    dsimp only
    split
    · rename_i hill
      exact .inr ⟨line, rfl, rfl, hill⟩
    · rename_i hwell
      refine .inl ⟨_, rfl, h.setCurrent rfl fun hnil => hwell (.inr hnil), ?_⟩
      rintro line' ⟨heq, hill⟩
      cases heq
      exact hwell hill

/-- All lines are read, or the first that cannot be is told. -/
theorem Reads.addLines (h : d.Reads above) (lines : List (List Char)) :
    (∃ d', d.addLines (above.length + 1) lines = .ok d' ∧ d'.Reads (rolesFrom above lines) ∧
        ∀ i, above.length ≤ i → ∀ line, ¬ IllAt (rolesFrom above lines) i line) ∨
      ∃ i line, above.length ≤ i ∧ d.addLines (above.length + 1) lines = .error (complaint (i + 1) line) ∧
        IllAt (rolesFrom above lines) i line ∧
        ∀ j, above.length ≤ j → j < i → ∀ line', ¬ IllAt (rolesFrom above lines) j line' := by
  induction lines generalizing d above with
  | nil =>
    refine .inl ⟨d, rfl, h, fun i hi line hill => ?_⟩
    have hlt := (List.getElem?_eq_some_iff.mp hill.1).1
    rw [rolesFrom_nil] at hlt
    omega
  | cons raw lines ih =>
    have hprefix := prefix_rolesFrom (above ++ [Role.below above raw]) lines
    have hlength : (above ++ [Role.below above raw]).length = above.length + 1 := by simp
    have hhere : ∀ line, IllAt (rolesFrom above (raw :: lines)) above.length line ↔
        IllAt (above ++ [Role.below above raw]) above.length line :=
      fun line => illAt_iff_of_isPrefix hprefix (by omega)
    unfold Document.addLines
    rcases h.addLine (above.length + 1) raw with ⟨d', hd', hreads, hwell⟩ | ⟨line, herror, hill⟩
    · rw [hd', ← hlength]
      have hwell' : ∀ i, above.length ≤ i → i < (above ++ [Role.below above raw]).length →
          ∀ line, ¬ IllAt (rolesFrom above (raw :: lines)) i line := by
        intro i hi hlt line hill
        obtain rfl : i = above.length := by omega
        exact hwell line ((hhere line).mp hill)
      rcases ih hreads with ⟨d'', hd'', hreads', hrest⟩ | ⟨i, line, hi, herror, hill, hfirst⟩
      · refine .inl ⟨d'', hd'', hreads', fun i hi => ?_⟩
        by_cases hlt : i < (above ++ [Role.below above raw]).length
        · exact hwell' i hi hlt
        · exact hrest i (Nat.not_lt.mp hlt)
      · refine .inr ⟨i, line, by omega, herror, hill, fun j hj hji => ?_⟩
        by_cases hlt : j < (above ++ [Role.below above raw]).length
        · exact hwell' j hj hlt
        · exact hfirst j (Nat.not_lt.mp hlt) hji
    · refine .inr ⟨above.length, line, Nat.le_refl _, ?_, (hhere line).mpr hill, fun j hj hlt => by omega⟩
      rw [herror]
      rfl

end Document
end Ini
end Transclusion
