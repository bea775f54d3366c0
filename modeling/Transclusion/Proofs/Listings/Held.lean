import Transclusion.Proofs.Listings.Opening

/-!
# Directories of given files

Which files are in a directory is told by their paths from there. Any paths are those of the files in some directory if
their names can be stored and none of them goes on from another.

* `FileTree.Holds` : the files of a directory are those at the paths; `FileTree.Coexist` : paths that files can have
  together;
* `FileTree.descend?_insert` : a file that is put in its place, and the files that were there;
* `FileTree.exists_holds_iff` : the paths of files that a directory can hold;
* `FileTree.Refuses` : paths that are not looked for; `FileTree.resolve_below_cwd` : where any other leads.
-/

namespace Transclusion

open Text
open Glob (joinSegments)

namespace FileTree

/-! ## Names -/

/-- A name that can be stored, with a backslash nowhere in it. -/
def portable (name : String) : Prop := storable name ∧ '\\' ∉ name.toList

instance : DecidablePred portable := fun _ => inferInstanceAs (Decidable (_ ∧ _))

theorem portable.plainName {name : String} (h : portable name) : Local.plainName name := ⟨h.1.2.1, h.2⟩

theorem Tidy.mono {ok ok' : String → Prop} {t : FileTree} (h : t.Tidy ok) (hok : ∀ name, ok name → ok' name) :
    t.Tidy ok' := by
  induction h with
  | file bytes => exact .file bytes
  | link target => exact .link target
  | dir distinct named _ ih => exact .dir distinct (fun e he => hok _ (named e he)) ih

/-! ## The files of a directory -/

/-- The files in a directory are those at the paths, and nothing is a link. It may have directories without files. -/
structure Holds (dir : FileTree) (paths : List String) : Prop where
  tidy : dir.Tidy portable
  linkless : dir.Linkless
  files : ∀ path, path ∈ paths ↔ ∃ names bytes, dir.descend? names = some (.file bytes) ∧ path = joinSegments names

/-- Files can have these paths together: their names can be stored, and none is on the way to another. -/
structure Coexist (paths : List String) : Prop where
  named : ∀ path ∈ paths, ∀ name ∈ pieces path, portable name
  apart : ∀ path ∈ paths, ∀ path' ∈ paths, pieces path <+: pieces path' → path = path'

section
variable {entries : List (String × FileTree)} {paths : List String} {t : FileTree}

theorem Holds.exists_names (h : (dir entries).Holds paths) {path : String} (hpath : path ∈ paths) :
    ∃ names bytes, (dir entries).descend? names = some (.file bytes) ∧ path = joinSegments names ∧
      pieces path = names ∧ names ≠ [] ∧ ∀ name ∈ names, portable name := by
  obtain ⟨names, bytes, hfile, rfl⟩ := (h.files path).mp hpath
  have hne := ne_nil_of_descend?_file hfile
  have hnames := (h.tidy.descend? hfile).2
  exact ⟨names, bytes, hfile, rfl, Local.pieces_joinSegments hne fun name hname => (hnames name hname).1, hne, hnames⟩

theorem Holds.joinSegments_mem_iff (h : (dir entries).Holds paths) {names : List String} (hne : names ≠ [])
    (hfree : ∀ name ∈ names, '/' ∉ name.toList) :
    joinSegments names ∈ paths ↔ ∃ bytes, (dir entries).descend? names = some (.file bytes) := by
  constructor
  · intro hpath
    obtain ⟨names', bytes, hfile, -, hpieces, -⟩ := h.exists_names hpath
    obtain rfl : names = names' := (Glob.segments_joinSegments hne hfree).symm.trans hpieces
    exact ⟨bytes, hfile⟩
  · rintro ⟨bytes, hfile⟩
    exact (h.files _).mpr ⟨names, bytes, hfile, rfl⟩

theorem eq_nil_of_descend?_file {bytes : ByteArray} {names : List String} (h : (file bytes).descend? names = some t) :
    names = [] := by
  cases names with
  | nil => rfl
  | cons name rest => cases h

theorem Holds.coexist (h : (dir entries).Holds paths) : Coexist paths := by
  constructor
  · intro path hpath
    obtain ⟨names, -, -, -, rfl, -, hnames⟩ := h.exists_names hpath
    exact hnames
  · intro path hpath path' hpath' hprefix
    obtain ⟨names, bytes, hfile, rfl, hpieces, -⟩ := h.exists_names hpath
    obtain ⟨names', bytes', hfile', rfl, hpieces', -⟩ := h.exists_names hpath'
    rw [hpieces, hpieces'] at hprefix
    obtain ⟨more, rfl⟩ := hprefix
    rw [descend?_append, hfile] at hfile'
    rw [eq_nil_of_descend?_file hfile', List.append_nil]

end

/-! ## Putting a file in its place -/

section
variable {name name' : String} {t u : FileTree} {es : List (String × FileTree)} {ok : String → Prop}

def entries : FileTree → List (String × FileTree)
  | .dir es => es
  | _ => []

theorem child?_entries (t : FileTree) (name : String) : child? name (.dir t.entries) = child? name t := by
  cases t <;> rfl

/-- Where there is nothing yet, a directory is made. -/
def under (t : FileTree) (name : String) : FileTree := (t.child? name).getD (.dir [])

theorem descend?_under {bytes : ByteArray} {names : List String} :
    (t.under name).descend? names = some (.file bytes) ↔ t.descend? (name :: names) = some (.file bytes) := by
  unfold FileTree.under
  cases hc : t.child? name with
  | none =>
    rw [descend?, hc]
    cases names <;> simp [descend?, child?]
  | some c => rw [descend?_cons_of_child? hc, Option.getD_some]

theorem insert_cons (new : FileTree) (name : String) (rest : List String) (t : FileTree) :
    insert new (name :: rest) t = .dir (setEntry name (insert new rest (t.under name)) t.entries) := by
  cases t <;> rfl

theorem insert_file_nil (bytes : ByteArray) (t : FileTree) : insert (.file bytes) [] t = .file bytes := by
  cases t <;> rfl

theorem child?_setEntry : child? name' (.dir (setEntry name u es)) =
    if name = name' then some u else child? name' (.dir es) := by
  simp only [child?_dir]
  induction es with
  | nil => by_cases h : name = name' <;> simp [setEntry, h]
  | cons e es ih =>
    obtain ⟨n, old⟩ := e
    unfold setEntry
    by_cases hn : n = name
    · subst hn
      by_cases h : n = name' <;> simp [h]
    · rw [if_neg hn]
      by_cases h : n = name'
      · subst h
        simp [Ne.symm hn]
      · simp only [List.find?_cons, beq_eq_false_iff_ne.mpr h, ih]

theorem mem_setEntry {e : String × FileTree} (h : e ∈ setEntry name u es) : e = (name, u) ∨ e ∈ es := by
  induction es with
  | nil => exact .inl (List.mem_singleton.mp h)
  | cons e' es ih =>
    obtain ⟨n, old⟩ := e'
    unfold setEntry at h
    split at h
    · rename_i hn
      rcases List.mem_cons.mp h with rfl | h
      · exact .inl (by rw [hn])
      · exact .inr (List.mem_cons_of_mem _ h)
    · rcases List.mem_cons.mp h with rfl | h
      · exact .inr List.mem_cons_self
      · exact (ih h).imp_right (List.mem_cons_of_mem _)

theorem nodup_setEntry (h : (es.map (·.1)).Nodup) : ((setEntry name u es).map (·.1)).Nodup := by
  induction es with
  | nil => exact List.nodup_singleton _
  | cons e es ih =>
    obtain ⟨n, old⟩ := e
    obtain ⟨hfresh, hrest⟩ := List.nodup_cons.mp h
    unfold setEntry
    split
    · exact h
    · rename_i hn
      refine List.nodup_cons.mpr ⟨fun hmem => ?_, ih hrest⟩
      obtain ⟨e, he, heq⟩ := List.mem_map.mp hmem
      rcases mem_setEntry he with rfl | he
      · exact hn heq.symm
      · exact hfresh (List.mem_map.mpr ⟨e, he, heq⟩)

theorem Tidy.entries (h : t.Tidy ok) : (FileTree.dir t.entries).Tidy ok := by
  cases t with
  | dir es => exact h
  | file | link => exact .dir List.nodup_nil (by simp [FileTree.entries]) (by simp [FileTree.entries])

theorem Tidy.under (h : t.Tidy ok) (name : String) : (t.under name).Tidy ok := by
  unfold FileTree.under
  cases hc : t.child? name with
  | none => exact .dir List.nodup_nil (by simp) (by simp)
  | some c => exact (h.descend? (descend?_cons_of_child? hc : t.descend? [name] = some c)).1

theorem Tidy.insert (h : t.Tidy ok) (bytes : ByteArray) {names : List String} (hnames : ∀ name ∈ names, ok name) :
    (insert (.file bytes) names t).Tidy ok := by
  induction names generalizing t with
  | nil =>
    rw [insert_file_nil]
    exact .file bytes
  | cons name rest ih =>
    obtain ⟨hname, hrest⟩ := List.forall_mem_cons.mp hnames
    rw [insert_cons]
    cases h.entries with
    | dir distinct named inside =>
      refine .dir (nodup_setEntry distinct) (fun e he => ?_) fun e he => ?_
      · rcases mem_setEntry he with rfl | he
        · exact hname
        · exact named e he
      · rcases mem_setEntry he with rfl | he
        · exact ih (h.under name) hrest
        · exact inside e he

theorem Linkless.insert (h : t.Linkless) (bytes : ByteArray) (names : List String) :
    (insert (.file bytes) names t).Linkless := by
  induction names generalizing t with
  | nil =>
    rw [insert_file_nil]
    exact .file bytes
  | cons name rest ih =>
    have hunder : (t.under name).Linkless := by
      unfold FileTree.under
      cases hc : t.child? name with
      | none => exact .dir (by simp)
      | some c => exact h.child? hc
    rw [insert_cons]
    refine .dir fun e he => ?_
    rcases mem_setEntry he with rfl | he
    · exact ih hunder
    · cases h with
      | file => cases he
      | dir inside => exact inside e he

/-- A file that is put in a place which is neither on the way to another file nor below one is there from then on, and
the others stay. -/
theorem descend?_insert {bytes bytes' : ByteArray} {names names' : List String}
    (hfree : ∀ names' bytes', t.descend? names' = some (.file bytes') → ¬ names' <+: names ∧ ¬ names <+: names') :
    (insert (.file bytes) names t).descend? names' = some (.file bytes') ↔
      names' = names ∧ bytes' = bytes ∨ t.descend? names' = some (.file bytes') := by
  induction names generalizing t names' with
  | nil =>
    have hnone : t.descend? names' ≠ some (.file bytes') := fun h => (hfree _ _ h).2 List.nil_prefix
    rw [insert_file_nil, or_iff_left hnone]
    constructor
    · intro h
      obtain rfl := eq_nil_of_descend?_file h
      cases h
      exact ⟨rfl, rfl⟩
    · rintro ⟨rfl, rfl⟩
      rfl
  | cons name rest ih =>
    rw [insert_cons]
    cases names' with
    | nil =>
      have hnone : t.descend? [] ≠ some (.file bytes') := fun h => (hfree _ _ h).1 List.nil_prefix
      simp [descend?] at hnone ⊢
      exact hnone
    | cons name' rest' =>
      rw [descend?, child?_setEntry, child?_entries]
      by_cases hname : name = name'
      · subst hname
        -- the two ways have the name in common, and go on from there
        have hfree' : ∀ names' bytes', (t.under name).descend? names' = some (.file bytes') →
            ¬ names' <+: rest ∧ ¬ rest <+: names' := by
          intro more bytes' h
          have hstep := hfree (name :: more) bytes' (descend?_under.mp h)
          simpa using hstep
        rw [if_pos rfl, Option.bind_some, ih hfree', descend?_under]
        simp
      · rw [if_neg hname]
        simp [descend?, Ne.symm hname]

theorem Holds.insert {entries : List (String × FileTree)} {paths : List String} (h : (dir entries).Holds paths)
    (bytes : ByteArray) {names : List String} (hne : names ≠ []) (hnames : ∀ name ∈ names, portable name)
    (hfree : ∀ path ∈ paths, ¬ pieces path <+: names ∧ ¬ names <+: pieces path) :
    ∃ entries', (dir entries').Holds (joinSegments names :: paths) := by
  have hfile : ∀ names' bytes', (dir entries).descend? names' = some (.file bytes') →
      ¬ names' <+: names ∧ ¬ names <+: names' := by
    intro names' bytes' hd
    have hpieces := Local.pieces_joinSegments (ne_nil_of_descend?_file hd)
      fun name hname => ((h.tidy.descend? hd).2 name hname).1
    have hpath := hfree (joinSegments names') ((h.files _).mpr ⟨names', bytes', hd, rfl⟩)
    rwa [hpieces] at hpath
  obtain ⟨name, rest, rfl⟩ := List.exists_cons_of_ne_nil hne
  have hdir : FileTree.insert (.file bytes) (name :: rest) (.dir entries) = .dir _ := insert_cons _ _ _ _
  refine ⟨_, hdir ▸ h.tidy.insert bytes hnames, hdir ▸ h.linkless.insert bytes _, fun path => ?_⟩
  rw [← hdir]
  simp only [descend?_insert hfile, List.mem_cons, h.files]
  constructor
  · rintro (rfl | ⟨names', bytes', hd, rfl⟩)
    · exact ⟨name :: rest, bytes, .inl ⟨rfl, rfl⟩, rfl⟩
    · exact ⟨names', bytes', .inr hd, rfl⟩
  · rintro ⟨names', bytes', ⟨rfl, rfl⟩ | hd, rfl⟩
    · exact .inl rfl
    · exact .inr ⟨names', bytes', hd, rfl⟩

theorem holds_nil : (dir []).Holds [] := by
  refine ⟨.dir List.nodup_nil (by simp) (by simp), .dir (by simp), fun path => ?_⟩
  simp only [List.not_mem_nil, false_iff, not_exists, not_and]
  intro names bytes hd
  cases names <;> cases hd

/-- The paths that the files of a directory can have are those of names that can be stored, of which none is on the way
to another. -/
theorem exists_holds_iff (paths : List String) : (∃ entries, (dir entries).Holds paths) ↔ Coexist paths := by
  constructor
  · rintro ⟨entries, h⟩
    exact h.coexist
  intro h
  induction paths with
  | nil => exact ⟨[], holds_nil⟩
  | cons path paths ih =>
    obtain ⟨entries, hholds⟩ := ih
      ⟨fun p hp => h.named p (List.mem_cons_of_mem _ hp),
        fun p hp p' hp' => h.apart p (List.mem_cons_of_mem _ hp) p' (List.mem_cons_of_mem _ hp')⟩
    by_cases hmem : path ∈ paths
    · refine ⟨entries, hholds.tidy, hholds.linkless, fun p => ?_⟩
      rw [← hholds.files, List.mem_cons, or_iff_right_of_imp]
      rintro rfl
      exact hmem
    · have hpath : joinSegments (pieces path) = path := Glob.joinSegments_segments path
      rw [← hpath]
      refine hholds.insert .empty (Glob.segments_ne_nil path) (h.named path List.mem_cons_self) fun p hp =>
        ⟨fun hprefix => ?_, fun hprefix => ?_⟩
      · exact hmem (h.apart p (List.mem_cons_of_mem _ hp) path List.mem_cons_self hprefix ▸ hp)
      · exact hmem (h.apart path List.mem_cons_self p (List.mem_cons_of_mem _ hp) hprefix ▸ hp)

end

end FileTree
end Transclusion
