import Transclusion.Proofs.Ini.Meaning

/-!
# Values on several lines

A line that goes on with a value is added to the last of the fields. A key that is set again keeps its place among the
fields, so that this is the key which was new last, and not always the one that was set last.

* `Ini.GoesOn` : an indented line below an entry; `Ini.Newest` : the key that was new last;
* `Ini.Fields.extend` : one field gets a further line, and no other;
* `Ini.Fields.newest_iff` : the last of the fields is that of the newest key;
* `Value.ofIni_continuation` : what an indented line is added to, and what the entry above it has by then;
* `Value.ofIni_continuation_astray` : this is not always the entry above it.
-/

namespace Transclusion
namespace Ini

/-- A line below an entry goes on with a value: it is indented and means something, and there is neither an entry nor a
header between. -/
structure GoesOn (above : List Role) (line : List Char) (between : List Role) (raw : List Char) : Prop where
  significant : isInsignificant (Text.trimChars raw) = false
  indented : isIndented raw = true
  nearest : ∃ before, above = before ++ .entry line :: between
  noHeader : ∀ r ∈ between, r.isHeader = false
  noEntry : ∀ r ∈ between, r.isEntry = false

/-- The key that was new last: all that is set after it has been set before. -/
def Newest (own : List Role) (key : String) : Prop :=
  ∃ before line after, own = before ++ .entry line :: after ∧ keyOf line = key ∧ ¬ Sets before key ∧
    ∀ line', .entry line' ∈ after → Sets (before ++ [.entry line]) (keyOf line')

variable {rs own before between above : List Role} {r : Role} {key k value more : String} {fs : Fields}
  {line raw : List Char}

namespace Fields

def extend (key more : String) (fs : Fields) : Fields :=
  fs.map fun f => (f.1, if f.1 = key then f.2 ++ "\n" ++ more else f.2)

/-! ## The last of the fields -/

theorem extend_of_not_mem (h : key ∉ fs.keys) (more : String) : fs.extend key more = fs := by
  refine (List.map_congr_left fun f hf => ?_).trans (List.map_id fs)
  have hne : f.1 ≠ key := fun heq => h (heq ▸ List.mem_map_of_mem hf)
  simp [hne]

/-- The last of distinct keys is the one that gets the line. -/
theorem extendLast_eq_extend (h : fs.keys.Nodup) (hlast : fs.keys.getLast? = some key) :
    extendLast more fs = fs.extend key more := by
  rcases List.eq_nil_or_concat fs with rfl | ⟨fs, ⟨k, value⟩, rfl⟩
  · cases hlast
  · rw [List.concat_eq_append] at h hlast ⊢
    obtain rfl : k = key := by simpa [keys] using hlast
    have hnew : k ∉ keys fs := by
      intro hmem
      rw [keys, List.map_append, List.nodup_append] at h
      exact h.2.2 k hmem k (by simp) rfl
    rw [extendLast_concat]
    have hrest := extend_of_not_mem hnew more
    unfold extend at hrest ⊢
    rw [List.map_append, hrest]
    simp

theorem lookup_set (key value : String) (fs : Fields) : (set key value fs).lookup key = some value := by
  induction fs with
  | nil => simp [set]
  | cons f fs ih =>
    obtain ⟨k, v⟩ := f
    by_cases hk : k = key
    · simp [set, hk]
    · have hne : (key == k) = false := by simpa using Ne.symm hk
      rw [set, if_neg hk, List.lookup_cons, hne]
      exact ih

theorem lookup_extend (key more k : String) (fs : Fields) :
    (fs.extend key more).lookup k =
      if k = key then (fs.lookup k).map fun value => value ++ "\n" ++ more else fs.lookup k := by
  induction fs with
  | nil => simp [extend]
  | cons f fs ih =>
    obtain ⟨k', v⟩ := f
    unfold extend at ih ⊢
    rw [List.map_cons]
    by_cases hk : k = k'
    · subst hk
      by_cases hkey : k = key <;> simp [hkey]
    · have hne : (k == k') = false := by simpa using hk
      rw [List.lookup_cons, List.lookup_cons, hne]
      exact ih

/-! ## The newest key -/

theorem keys_ofRoles_append {after : List Role} (h : ∀ line, .entry line ∈ after → Sets own (keyOf line)) :
    (ofRoles (own ++ after)).keys = (ofRoles own).keys := by
  induction after using List.reverseRecOn with
  | nil => rw [List.append_nil]
  | append_singleton after r ih =>
    have hkeys := ih fun line hline => h line (List.mem_append_left _ hline)
    rw [← List.append_assoc, ofRoles_concat, keys_addRole]
    cases r with
    | entry line =>
      have hold : keyOf line ∈ (ofRoles own).keys := mem_keys_ofRoles.mpr (h line (by simp))
      rw [hkeys]
      exact if_pos hold
    | _ => exact hkeys

end Fields

theorem Newest.getLast?_keys (h : Newest own key) : (Fields.ofRoles own).keys.getLast? = some key := by
  obtain ⟨before, line, after, rfl, rfl, hnew, hold⟩ := h
  have hfresh : keyOf line ∉ (Fields.ofRoles before).keys := fun hmem => hnew (Fields.mem_keys_ofRoles.mp hmem)
  rw [← List.singleton_append, ← List.append_assoc, Fields.keys_ofRoles_append hold, Fields.ofRoles_concat,
    Fields.keys_addRole]
  simp [hfresh]

theorem exists_newest (h : own.any Role.isEntry = true) : ∃ key, Newest own key := by
  induction own using List.reverseRecOn with
  | nil => cases h
  | append_singleton own r ih =>
    by_cases hfresh : ∃ line, r = .entry line ∧ ¬ Sets own (keyOf line)
    · obtain ⟨line, rfl, hnew⟩ := hfresh
      exact ⟨keyOf line, own, line, [], rfl, rfl, hnew, by simp⟩
    · have hold : ∀ line, r = .entry line → Sets own (keyOf line) := by
        intro line hr
        by_contra hnew
        exact hfresh ⟨line, hr, hnew⟩
      have hany : own.any Role.isEntry = true := by
        rw [List.any_append, Bool.or_eq_true] at h
        rcases h with hown | hr
        · exact hown
        · cases r with
          | entry line =>
            obtain ⟨line', hmem, -⟩ := hold line rfl
            exact List.any_eq_true.mpr ⟨_, hmem, rfl⟩
          | _ => cases hr
      obtain ⟨key, before, line, after, rfl, hkey, hnew, hafter⟩ := ih hany
      refine ⟨key, before, line, after ++ [r], by simp, hkey, hnew, ?_⟩
      intro line' hmem
      rcases List.mem_append.mp hmem with hin | hlast
      · exact hafter line' hin
      · obtain ⟨line'', hin, hsame⟩ := hold line' (List.mem_singleton.mp hlast).symm
        rw [← hsame]
        rcases List.mem_append.mp hin with hearlier | hlater
        · exact ⟨line'', List.mem_append_left _ hearlier, rfl⟩
        · rcases List.mem_cons.mp hlater with heq | hlater
          · exact ⟨line'', by simp [heq], rfl⟩
          · exact hafter line'' hlater

theorem Fields.newest_iff : Newest own key ↔ (ofRoles own).keys.getLast? = some key := by
  constructor
  · exact Newest.getLast?_keys
  · intro hlast
    have hany : own.any Role.isEntry = true := by
      rw [← Bool.not_eq_false, ← ofRoles_eq_nil_iff]
      intro hnil
      rw [hnil] at hlast
      cases hlast
    obtain ⟨key', hnew⟩ := exists_newest hany
    obtain rfl : key' = key := Option.some.inj (hnew.getLast?_keys.symm.trans hlast)
    exact hnew

/-! ## The entry above -/

/-- What an entry has set, with what goes on with it if its key is the newest one. -/
theorem Fields.lookup_below_entry (hnew : Newest (own ++ .entry line :: between) key)
    (hentry : ∀ r ∈ between, r.isEntry = false) :
    (ofRoles (own ++ .entry line :: between)).lookup (keyOf line) =
      some (valueOf line ++ if keyOf line = key then continued between else "") := by
  induction between using List.reverseRecOn with
  | nil =>
    rw [ofRoles_concat, addRole, lookup_set]
    simp [continued]
  | append_singleton between r ih =>
    have hbefore : ∀ r ∈ between, r.isEntry = false := fun r hr => hentry r (List.mem_append_left _ hr)
    have hr : r.isEntry = false := hentry r (by simp)
    have hany : between.any Role.isEntry = false := by simpa using hbefore
    have hlist : own ++ .entry line :: (between ++ [r]) = (own ++ .entry line :: between) ++ [r] := by simp
    rw [newest_iff, hlist, ofRoles_concat, keys_addRole] at hnew
    rw [hlist, ofRoles_concat, continued_concat, hany]
    cases r with
    | entry line' => cases hr
    | continuation more =>
      have hhere := ih (newest_iff.mpr hnew) hbefore
      rw [addRole, extendLast_eq_extend (nodup_keys_ofRoles _) hnew, lookup_extend, hhere]
      by_cases hkey : keyOf line = key <;> simp [hkey, continued, String.append_assoc]
    | nothing => simpa [continued, addRole] using ih (newest_iff.mpr hnew) hbefore
    | header name => simpa [continued, addRole] using ih (newest_iff.mpr hnew) hbefore

theorem openRoles_append (hopen : blocks rs ≠ []) (hheader : ∀ r ∈ own, r.isHeader = false) :
    openRoles (rs ++ own) = openRoles rs ++ own ∧ blocks (rs ++ own) ≠ [] := by
  induction own using List.reverseRecOn with
  | nil => simpa using hopen
  | append_singleton own r ih =>
    have hr : r.isHeader = false := hheader r (by simp)
    obtain ⟨hown, hstill⟩ := ih fun r hr => hheader r (List.mem_append_left _ hr)
    rw [← List.append_assoc, openRoles_concat hr hstill, hown, List.append_assoc]
    refine ⟨rfl, ?_⟩
    rcases blocks_concat (rs ++ own) hr with ⟨hnil, -⟩ | ⟨before, name, own', -, hnew⟩
    · exact absurd hnil hstill
    · rw [hnew]
      simp

/-! ## The line -/

namespace GoesOn

theorem below (h : GoesOn above line between raw) (hentry : (openRoles above).any Role.isEntry = true) :
    Role.below above raw = .continuation (String.ofList (Text.trimChars raw)) := by
  have hsignificant := h.significant
  rw [← Bool.not_eq_true, isInsignificant_iff] at hsignificant
  unfold Role.below
  simp only
  rw [if_neg hsignificant, if_pos ⟨isIndented_iff.mp h.indented, hentry⟩]

end GoesOn

namespace Document

theorem exists_reads_of_ofText {text : String} {d : Document} (h : ofText text = .ok d) {pre post : List (List Char)}
    (hlines : Text.lines text.toList = pre ++ post) :
    ∃ d', ({} : Document).addLines 1 pre = .ok d' ∧ d'.Reads (roles pre) ∧ ∀ i line, ¬ IllAt (roles pre) i line := by
  obtain ⟨-, hwell⟩ := reads_of_ofText h
  have hprefix : roles pre <+: rolesOf text := by
    rw [rolesOf, hlines, roles_append]
    exact prefix_rolesFrom _ _
  have hwell' : ∀ i line, ¬ IllAt (roles pre) i line := by
    intro i line hill
    have hlt := (List.getElem?_eq_some_iff.mp hill.1).1
    exact hwell i line ((illAt_iff_of_isPrefix hprefix hlt).mpr hill)
  rcases reads_nil.addLines pre with ⟨d', hd', hreads, -⟩ | ⟨i, line, -, -, hill, -⟩
  · exact ⟨d', hd', hreads, hwell'⟩
  · exact absurd hill (hwell' i line)

end Document
end Ini

namespace Value

open Ini

/-- **What an indented line is added to.** Below an entry of a text that is accepted it is added to the newest key of
the open section, and to nothing else. By then the entry has the value it has set, with the lines between if its key
is the newest one. -/
theorem ofIni_continuation {text : String} {v : Value} (h : ofIni text = .ok v) {pre post : List (List Char)}
    {raw line : List Char} {between : List Role} (hlines : Text.lines text.toList = pre ++ raw :: post)
    (hgoes : GoesOn (roles pre) line between raw) :
    ∃ d fs key, ({} : Document).addLines 1 pre = .ok d ∧ d.current? = some fs ∧ fs.keys.Nodup ∧
      Newest (openRoles (roles pre)) key ∧
      d.addLine (pre.length + 1) raw = .ok (d.setCurrent (fs.extend key (String.ofList (Text.trimChars raw)))) ∧
      fs.lookup (keyOf line) = some (valueOf line ++ if keyOf line = key then continued between else "") := by
  obtain ⟨_, hdocument, -⟩ := ofIni_eq_ok h
  obtain ⟨d, hd, hreads, hwell⟩ := Document.exists_reads_of_ofText hdocument hlines
  obtain ⟨before, habove⟩ := hgoes.nearest
  have hopen : blocks before ≠ [] := by
    intro hnil
    apply hwell before.length line
    rw [habove]
    exact ⟨by simp, .inr (by simpa using hnil)⟩
  have hheader : ∀ r ∈ Role.entry line :: between, r.isHeader = false :=
    List.forall_mem_cons.mpr ⟨rfl, hgoes.noHeader⟩
  obtain ⟨hroles, hblocks⟩ := openRoles_append hopen hheader
  rw [← habove] at hroles hblocks
  have hentry : (openRoles (roles pre)).any Role.isEntry = true := by simp [hroles, Role.isEntry]
  obtain ⟨key, hnew⟩ := exists_newest hentry
  have hnodup := Fields.nodup_keys_ofRoles (openRoles (roles pre))
  refine ⟨d, Fields.ofRoles (openRoles (roles pre)), key, hd, ?_, hnodup, hnew, ?_, ?_⟩
  · rw [hreads.current?, if_neg hblocks]
  · rw [hreads.addLine_eq, hgoes.below hentry, ← Fields.extendLast_eq_extend hnodup hnew.getLast?_keys]
    rfl
  · rw [hroles] at hnew ⊢
    exact Fields.lookup_below_entry hnew hgoes.noEntry

theorem ofIni_continuation_again :
    ∃ d fs, ({} : Document).addLines 1 ["[a]".toList, "y = 2".toList, "x = 1".toList, "x = 3".toList, "  4".toList] =
        .ok d ∧ d.current? = some fs ∧ fs.lookup "x" = some "3\n4" ∧
      d.addLine 6 "\t5".toList = .ok (d.setCurrent (fs.extend "x" "5")) := by
  have hroles : roles ["[a]".toList, "y = 2".toList, "x = 1".toList, "x = 3".toList, "  4".toList] =
      [.header "a", .entry "y = 2".toList, .entry "x = 1".toList] ++ .entry "x = 3".toList :: [.continuation "4"] := by
    decide +kernel
  have hgoes : GoesOn (roles ["[a]".toList, "y = 2".toList, "x = 1".toList, "x = 3".toList, "  4".toList])
      "x = 3".toList [.continuation "4"] "\t5".toList :=
    ⟨by decide +kernel, by decide, ⟨_, hroles⟩, by simp [Role.isHeader], by simp [Role.isEntry]⟩
  have hlines : Text.lines "[a]\ny = 2\nx = 1\nx = 3\n  4\n\t5".toList =
      ["[a]".toList, "y = 2".toList, "x = 1".toList, "x = 3".toList, "  4".toList] ++ "\t5".toList :: [] := by
    decide +kernel
  obtain ⟨v, hv⟩ : ∃ v, ofIni "[a]\ny = 2\nx = 1\nx = 3\n  4\n\t5" = .ok v := ⟨_, rfl⟩
  obtain ⟨d, fs, key, hd, hfs, -, hnew, hadd, hlookup⟩ := ofIni_continuation hv hlines hgoes
  have hkey : (Fields.ofRoles (openRoles
      (roles ["[a]".toList, "y = 2".toList, "x = 1".toList, "x = 3".toList, "  4".toList]))).keys.getLast? =
      some "x" := by
    decide +kernel
  obtain rfl : "x" = key := Option.some.inj (hkey.symm.trans hnew.getLast?_keys)
  have hentry : keyOf "x = 3".toList = "x" := by decide +kernel
  rw [hentry] at hlookup
  exact ⟨d, fs, hd, hfs, hlookup, hadd⟩

/-- A key that is set again is not always the newest one, and what goes on with it is added to another. -/
theorem ofIni_continuation_astray :
    ¬ ∀ text v pre raw post line between, ofIni text = .ok v → Text.lines text.toList = pre ++ raw :: post →
      GoesOn (roles pre) line between raw → ∃ d fs, ({} : Document).addLines 1 pre = .ok d ∧ d.current? = some fs ∧
        d.addLine (pre.length + 1) raw =
          .ok (d.setCurrent (fs.extend (keyOf line) (String.ofList (Text.trimChars raw)))) := by
  intro h
  have hroles : roles ["[a]".toList, "x = 1".toList, "y = 2".toList, "x = 3".toList] =
      [.header "a", .entry "x = 1".toList, .entry "y = 2".toList] ++ .entry "x = 3".toList :: [] := by
    decide +kernel
  have hgoes : GoesOn (roles ["[a]".toList, "x = 1".toList, "y = 2".toList, "x = 3".toList]) "x = 3".toList []
      "  more".toList :=
    ⟨by decide +kernel, by decide, ⟨_, hroles⟩, by simp, by simp⟩
  obtain ⟨v, hv⟩ : ∃ v, ofIni "[a]\nx = 1\ny = 2\nx = 3\n  more" = .ok v := ⟨_, rfl⟩
  obtain ⟨d, fs, hd, hfs, hadd⟩ := h _ v _ _ [] _ _ hv (by decide +kernel) hgoes
  cases hd
  cases hfs
  have hsections := congrArg (fun r => r.toOption.map Document.sections) hadd
  exact absurd hsections (by decide +kernel)

end Value
end Transclusion
