import Transclusion.Proofs.Ini.Sections
import Transclusion.Proofs.Values.Keys

/-!
# What an INI text means

* `Ini.meaning` : each section with its own entries, and those of the default section that it does not set;
* `Ini.Document.read_cases` : all lines of a text are read, or the first that cannot be is told;
* `Value.ofIni_meaning` : which texts are refused and where, and what the others give.
-/

namespace Transclusion

/-! ## Mappings with distinct texts as keys -/

namespace Entries

theorem ofPairs_of_nodup {α : Type} {l : List (String × α)} (h : (l.map (·.1)).Nodup) (g : String × α → Value) :
    ofPairs (l.map fun x => (.string x.1, g x)) = l.map fun x => (.string x.1, g x) := by
  apply ofPairs_of_distinct
  rw [List.Nodup, List.pairwise_map] at h
  rw [Distinct, List.pairwise_map]
  refine h.imp fun {x y} hne => ?_
  simpa [Value.same] using Ne.symm hne

end Entries

namespace Ini

def rolesOf (text : String) : List Role := roles (Text.lines text.toList)

/-- Each section with its own entries, and those of the default section whose key it does not set. -/
def meaning (rs : List Role) : Entries :=
  (otherBlocks rs).map fun b =>
    (.string b.1, .mapping
      ((entries b.2 ++ (entries (defaultRoles rs)).filter fun f => f.1 ∉ (entries b.2).keys).map fun f =>
        (.string f.1, .string f.2)))

variable {rs : List Role} {d : Document}

namespace Fields

theorem withDefaults_eq (fs defaults : Fields) :
    fs.withDefaults defaults = fs ++ defaults.filter fun f => f.1 ∉ fs.keys := by
  have hkey : ∀ key, hasKey key fs = true ↔ key ∈ fs.keys := by
    intro key
    simp [hasKey, keys]
  unfold withDefaults
  congr 1
  apply List.filter_congr
  intro f _
  rw [Bool.eq_iff_iff, Bool.not_eq_true', ← Bool.not_eq_true, hkey]
  simp

theorem nodup_keys_withDefaults {fs defaults : Fields} (h : fs.keys.Nodup) (hd : defaults.keys.Nodup) :
    (fs.withDefaults defaults).keys.Nodup := by
  rw [withDefaults_eq, keys, List.map_append]
  refine List.nodup_append.mpr ⟨h, (List.filter_sublist.map _).nodup hd, ?_⟩
  rintro key hkey _ hother rfl
  obtain ⟨f, hf, rfl⟩ := List.mem_map.mp hother
  have hnew := (List.mem_filter.mp hf).2
  exact absurd hkey (by simpa using hnew)

theorem toEntries_eq {fs : Fields} (h : fs.keys.Nodup) : fs.toEntries = fs.map fun f => (.string f.1, .string f.2) :=
  Entries.ofPairs_of_nodup h fun f => .string f.2

end Fields

namespace Document

/-- All lines of a text are read, or the first that cannot be is told. -/
theorem read_cases (text : String) :
    (∃ d, ofText text = .ok d ∧ d.Reads (rolesOf text) ∧ ∀ i line, ¬ IllAt (rolesOf text) i line) ∨
      ∃ i line, ofText text = .error (complaint (i + 1) line) ∧ IllAt (rolesOf text) i line ∧
        ∀ j < i, ∀ line', ¬ IllAt (rolesOf text) j line' := by
  rcases reads_nil.addLines (Text.lines text.toList) with ⟨d, hd, hreads, hwell⟩ | ⟨i, line, -, herror, hill, hfirst⟩
  · exact .inl ⟨d, hd, hreads, fun i => hwell i (Nat.zero_le i)⟩
  · exact .inr ⟨i, line, herror, hill, fun j => hfirst j (Nat.zero_le j)⟩

theorem reads_of_ofText {text : String} (h : ofText text = .ok d) :
    d.Reads (rolesOf text) ∧ ∀ i line, ¬ IllAt (rolesOf text) i line := by
  rcases read_cases text with ⟨d', hd', hreads, hwell⟩ | ⟨i, line, herror, -⟩
  · cases h.symm.trans hd'
    exact ⟨hreads, hwell⟩
  · cases h.symm.trans herror

/-- The mapping of a document whose sections and keys are distinct. -/
theorem Reads.toEntries_eq (h : d.Reads rs) (hnames : ((otherBlocks rs).map (·.1)).Nodup)
    (hkeys : ∀ b ∈ otherBlocks rs, (entries b.2).keys.Nodup) (hdefaults : (entries (defaultRoles rs)).keys.Nodup) :
    d.toEntries = meaning rs := by
  have hdefault : d.defaults = entries (defaultRoles rs) := by
    rw [h.defaults, Fields.ofRoles_eq_entries hdefaults]
  have hsections : d.sections.reverse = (otherBlocks rs).map fun b => (b.1, entries b.2) := by
    rw [h.sections]
    apply List.map_congr_left
    intro b hb
    rw [Fields.ofRoles_eq_entries (hkeys b hb)]
  unfold toEntries meaning
  rw [hsections, hdefault, List.map_map, Function.comp_def]
  show Entries.ofPairs ((otherBlocks rs).map fun b => (.string b.1, .mapping _)) = _
  rw [Entries.ofPairs_of_nodup hnames fun b => .mapping ((entries b.2).withDefaults (entries (defaultRoles rs))).toEntries]
  apply List.map_congr_left
  intro b hb
  rw [Fields.toEntries_eq (Fields.nodup_keys_withDefaults (hkeys b hb) hdefaults), Fields.withDefaults_eq]

end Document

def reproach (line : List Char) : String :=
  if '=' ∉ line ∧ ':' ∉ line then "expected `key = value`, found '" ++ String.ofList line ++ "'"
  else "entry before any section header"

theorem message_complaint (number : Nat) (line : List Char) :
    (complaint number line).message = "line " ++ toString number ++ ": " ++ reproach line := by
  unfold complaint reproach
  apply String.ext
  split <;> simp [IniFault.message]

end Ini

namespace Value

open Ini

theorem ofIni_eq_error_iff {text : String} {f : IniFault} :
    ofIni text = .error f ↔ Document.ofText text = .error f := by
  unfold ofIni
  cases Document.ofText text <;> simp [Except.map]

theorem ofIni_eq_ok {text : String} {v : Value} (h : ofIni text = .ok v) :
    ∃ d, Document.ofText text = .ok d ∧ v = .mapping d.toEntries := by
  unfold ofIni at h
  cases hd : Document.ofText text with
  | error f =>
    rw [hd] at h
    cases h
  | ok d =>
    rw [hd] at h
    cases h
    exact ⟨d, rfl, rfl⟩

/-- **What an INI text means.** A text is refused exactly if an entry has no sign or no header above it, and the message
gives the number of the first such line. Any other text whose sections and keys are distinct gives each section, in
order, with its own entries and then those of the default section that it does not set. -/
theorem ofIni_meaning (text : String) :
    ((∃ f, ofIni text = .error f) ↔ ∃ i line, IllAt (rolesOf text) i line) ∧
    (∀ f, ofIni text = .error f → ∃ i line, IllAt (rolesOf text) i line ∧
      (∀ j < i, ∀ line', ¬ IllAt (rolesOf text) j line') ∧
      f.message = "line " ++ toString (i + 1) ++ ": " ++ reproach line) ∧
    ∀ v, ofIni text = .ok v → ((otherBlocks (rolesOf text)).map (·.1)).Nodup →
      (∀ b ∈ otherBlocks (rolesOf text), (entries b.2).keys.Nodup) →
      (entries (defaultRoles (rolesOf text))).keys.Nodup → v = .mapping (meaning (rolesOf text)) := by
  simp only [ofIni_eq_error_iff]
  rcases Document.read_cases text with ⟨d, hd, hreads, hwell⟩ | ⟨i, line, herror, hill, hfirst⟩
  · refine ⟨iff_of_false ?_ ?_, ?_, ?_⟩
    · rintro ⟨f, hf⟩
      cases hd.symm.trans hf
    · rintro ⟨i, line, hill⟩
      exact hwell i line hill
    · intro f hf
      cases hd.symm.trans hf
    · intro v hv hnames hkeys hdefaults
      obtain ⟨d', hd', rfl⟩ := ofIni_eq_ok hv
      cases hd.symm.trans hd'
      rw [hreads.toEntries_eq hnames hkeys hdefaults]
  · refine ⟨iff_of_true ⟨_, herror⟩ ⟨i, line, hill⟩, ?_, ?_⟩
    · intro f hf
      cases herror.symm.trans hf
      exact ⟨i, line, hill, hfirst, message_complaint (i + 1) line⟩
    · intro v hv
      obtain ⟨d, hd, -⟩ := ofIni_eq_ok hv
      cases herror.symm.trans hd

theorem ofIni_meaning_lines :
    ofIni "[a]\nX: 1\n  2\n# more\n[DEFAULT]\nx = 0\ny = 3" =
      .ok (.mapping [(.string "a", .mapping [(.string "x", .string "1\n2"), (.string "y", .string "3")])]) := by
  have hroles : rolesOf "[a]\nX: 1\n  2\n# more\n[DEFAULT]\nx = 0\ny = 3" =
      [.header "a", .entry "X: 1".toList, .continuation "2", .nothing, .header "DEFAULT", .entry "x = 0".toList,
        .entry "y = 3".toList] := by
    decide +kernel
  obtain ⟨v, hv⟩ : ∃ v, ofIni "[a]\nX: 1\n  2\n# more\n[DEFAULT]\nx = 0\ny = 3" = .ok v := ⟨_, rfl⟩
  obtain ⟨-, -, hmeaning⟩ := ofIni_meaning "[a]\nX: 1\n  2\n# more\n[DEFAULT]\nx = 0\ny = 3"
  rw [hroles] at hmeaning
  rw [hv, hmeaning v hv (by decide +kernel) (by decide +kernel) (by decide +kernel)]
  rfl

end Value
end Transclusion
