import Mathlib.Data.List.Nodup
import Transclusion.Disk.Tree

/-!
# The files below a directory

* `FileTree.Tidy ok` : names in one directory are different, and every name is as `ok` says;
* `FileTree.Tidy.mem_filesIn` : a walk lists the names that lead to a file through directories, as
  far down as its limit allows; `FileTree.Tidy.nodup_filesIn` : each of them once;
* `FileTree.Tidy.of_resolve` : what a path leads to is tidy.
-/

namespace Transclusion.FileTree

variable {ok : String → Prop} {entries : List (String × FileTree)} {t u : FileTree}

/-! ## Trees that a disk can hold -/

/-- The entries of a directory have different names. Every name is as `ok` says. -/
inductive Tidy (ok : String → Prop) : FileTree → Prop where
  | file (bytes : ByteArray) : Tidy ok (.file bytes)
  | link (target : String) : Tidy ok (.link target)
  | dir {entries : List (String × FileTree)} (distinct : (entries.map (·.1)).Nodup)
      (named : ∀ e ∈ entries, ok e.1) (below : ∀ e ∈ entries, Tidy ok e.2) : Tidy ok (.dir entries)

theorem child?_dir (name : String) :
    (dir entries).child? name = (entries.find? (·.1 == name)).map (·.2) := rfl

theorem mem_of_child? {name : String} (h : (dir entries).child? name = some t) :
    (name, t) ∈ entries := by
  rw [child?_dir, Option.map_eq_some_iff] at h
  obtain ⟨⟨name', t'⟩, hfind, rfl⟩ := h
  obtain rfl : name' = name := by simpa using List.find?_some hfind
  exact List.mem_of_find?_eq_some hfind

namespace Tidy

theorem child?_eq_some_iff (h : (FileTree.dir entries).Tidy ok) {name : String} :
    (FileTree.dir entries).child? name = some t ↔ (name, t) ∈ entries := by
  refine ⟨mem_of_child?, fun hmem => ?_⟩
  cases h with | dir distinct named below =>
  clear named below
  rw [child?_dir]
  induction entries with
  | nil => cases hmem
  | cons e rest ih =>
    obtain ⟨hfresh, hrest⟩ := List.nodup_cons.mp distinct
    rcases List.mem_cons.mp hmem with rfl | hmem
    · simp
    · have hne : e.1 ≠ name := fun heq => hfresh (List.mem_map.mpr ⟨_, hmem, heq.symm⟩)
      rw [List.find?_cons_of_neg (by simpa using hne)]
      exact ih hmem hrest

theorem descend? {names : List String} (h : t.Tidy ok) (hd : t.descend? names = some u) :
    u.Tidy ok ∧ ∀ name ∈ names, ok name := by
  induction names generalizing t with
  | nil => cases hd; exact ⟨h, by simp⟩
  | cons name rest ih =>
    obtain ⟨c, hc, hrest⟩ := Option.bind_eq_some_iff.mp hd
    cases h with
    | file => cases hc
    | link => cases hc
    | dir _ named below =>
      have hmem := mem_of_child? hc
      obtain ⟨hu, hnames⟩ := ih (below _ hmem) hrest
      exact ⟨hu, List.forall_mem_cons.mpr ⟨named _ hmem, hnames⟩⟩

end Tidy

theorem descend?_cons_of_child? {name : String} {rest : List String} (h : t.child? name = some u) :
    t.descend? (name :: rest) = u.descend? rest := by
  rw [descend?, h]
  rfl

theorem ne_nil_of_descend?_file {bytes : ByteArray} {names : List String}
    (h : (dir entries).descend? names = some (.file bytes)) : names ≠ [] := by
  rintro rfl
  cases h

/-! ## What a walk lists -/

theorem mem_filesIn {limit : Option Nat} {names : List String} :
    names ∈ filesIn limit entries ↔ ∃ e ∈ entries, names ∈ filesUnder limit e.1 e.2 := by
  induction entries with
  | nil => simp [filesIn]
  | cons e rest ih => simp [filesIn, ih]

/-- Under a node with a name, a file is listed by that name alone, and what is in a directory by that
name and those from there on. -/
theorem cons_mem_filesUnder {limit : Option Nat} {name first : String} {rest : List String} :
    first :: rest ∈ filesUnder limit name t ↔ first = name ∧
      ((∃ bytes, t = .file bytes ∧ rest = []) ∨
        ∃ entries, t = .dir entries ∧ limit ≠ some 0 ∧
          rest ∈ filesIn (limit.map (· - 1)) entries) := by
  cases t with
  | file bytes => simp [filesUnder]
  | link target => simp [filesUnder]
  | dir entries =>
    rcases limit with _ | _ | n
    · simp [filesUnder, eq_comm, and_comm]
    · simp [filesUnder]
    · simp [filesUnder, eq_comm, and_comm]

theorem nil_not_mem_filesUnder {limit : Option Nat} {name : String} :
    [] ∉ filesUnder limit name t := by
  cases t with
  | file => simp [filesUnder]
  | link => simp [filesUnder]
  | dir => rcases limit with _ | _ | n <;> simp [filesUnder]

theorem head?_of_mem_filesUnder {limit : Option Nat} {name : String} {names : List String}
    (h : names ∈ filesUnder limit name t) : names.head? = some name := by
  cases names with
  | nil => exact absurd h nil_not_mem_filesUnder
  | cons first rest => rw [(cons_mem_filesUnder.mp h).1]; rfl

theorem nodup_filesIn {limit : Option Nat} (distinct : (entries.map (·.1)).Nodup)
    (below : ∀ e ∈ entries, (filesUnder limit e.1 e.2).Nodup) : (filesIn limit entries).Nodup := by
  induction entries with
  | nil => exact List.nodup_nil
  | cons e rest ih =>
    obtain ⟨hfresh, hrest⟩ := List.nodup_cons.mp distinct
    obtain ⟨hfirst, hbelow⟩ := List.forall_mem_cons.mp below
    rw [filesIn]
    refine hfirst.append (ih hrest hbelow) fun names hin hother => ?_
    obtain ⟨e', he', hnames⟩ := mem_filesIn.mp hother
    have heq : e.1 = e'.1 := by
      simpa [head?_of_mem_filesUnder hin] using head?_of_mem_filesUnder hnames
    exact hfresh (List.mem_map.mpr ⟨e', he', heq.symm⟩)

namespace Tidy

/-- A walk lists the names that lead to a file through directories, as far down as its limit
allows. -/
theorem mem_filesIn (h : (FileTree.dir entries).Tidy ok) {limit : Option Nat} {names : List String} :
    names ∈ filesIn limit entries ↔
      (∃ bytes, (FileTree.dir entries).descend? names = some (FileTree.file bytes)) ∧
        ∀ n, limit = some n → names.length ≤ n + 1 := by
  induction names generalizing limit entries with
  | nil =>
    have hnil : [] ∉ filesIn limit entries := fun hmem => by
      obtain ⟨e, -, he⟩ := FileTree.mem_filesIn.mp hmem
      exact nil_not_mem_filesUnder he
    simp [hnil, FileTree.descend?]
  | cons name rest ih =>
    -- the entry of that name, and what the walk does there
    have hstep : name :: rest ∈ filesIn limit entries ↔ ∃ t, (FileTree.dir entries).child? name = some t ∧
        name :: rest ∈ filesUnder limit name t := by
      rw [FileTree.mem_filesIn]
      constructor
      · rintro ⟨⟨name', t⟩, he, hmem⟩
        obtain rfl := (cons_mem_filesUnder.mp hmem).1
        exact ⟨t, h.child?_eq_some_iff.mpr he, hmem⟩
      · rintro ⟨t, ht, hmem⟩
        exact ⟨(name, t), h.child?_eq_some_iff.mp ht, hmem⟩
    rw [hstep]
    cases hc : (FileTree.dir entries).child? name with
    | none => simp [FileTree.descend?, hc]
    | some t =>
      have hone : (FileTree.dir entries).descend? [name] = some t := descend?_cons_of_child? hc
      have ht : t.Tidy ok := (h.descend? hone).1
      rw [descend?_cons_of_child? hc]
      simp only [Option.some.injEq, exists_eq_left', cons_mem_filesUnder, true_and]
      cases t with
      | file bytes => cases rest <;> simp [FileTree.descend?, FileTree.child?]
      | link target => cases rest <;> simp [FileTree.descend?, FileTree.child?]
      | dir below =>
        rcases limit with _ | _ | n
        · simp [ih ht]
        · cases rest <;> simp [FileTree.descend?]
        · simp [ih ht]

theorem nodup_filesUnder (h : t.Tidy ok) (limit : Option Nat) (name : String) :
    (filesUnder limit name t).Nodup := by
  induction h generalizing limit name with
  | file bytes => simp [filesUnder]
  | link target => simp [filesUnder]
  | dir distinct _ _ ih =>
    have hin : ∀ limit, (filesIn limit _).Nodup := fun limit =>
      FileTree.nodup_filesIn distinct fun e he => ih e he limit e.1
    have hcons : Function.Injective (name :: ·) := fun _ _ => List.tail_eq_of_cons_eq
    rcases limit with _ | _ | n
    · exact (hin none).map hcons
    · exact List.nodup_nil
    · exact (hin (some n)).map hcons

theorem nodup_filesIn (h : (FileTree.dir entries).Tidy ok) (limit : Option Nat) :
    (filesIn limit entries).Nodup := by
  cases h with
  | dir distinct _ below =>
    exact FileTree.nodup_filesIn distinct fun e he => (below e he).nodup_filesUnder limit e.1

end Tidy

/-! ## What a path leads to -/

theorem descend?_of_walk {fuel links : Nat} {here names place : List String}
    (h : t.walk .follow fuel links here names = .ok (place, u)) : t.descend? place.reverse = some u := by
  induction fuel generalizing links here names with
  | zero => cases h
  | succ fuel ih =>
    unfold walk at h
    split at h
    · cases h
    · cases h
      assumption
    · exact ih h
    · exact ih h
    · exact ih h
    · split at h
      · cases h
      · split at h
        · cases h
        · simp only [reduceCtorEq, decide_false, Bool.and_false, Bool.false_eq_true, ↓reduceIte] at h
          split at h
          · cases h
          · exact ih h
        · exact ih h
    · cases h

theorem Tidy.of_resolve (h : t.Tidy ok) {cwd place : List String} {path : String}
    (hpath : t.resolve cwd .follow path = .ok (place, u)) : u.Tidy ok := by
  unfold resolve at hpath
  split at hpath
  · cases hpath
  split at hpath
  · cases hpath
  split at hpath
  · cases hpath
  exact (h.descend? (descend?_of_walk hpath)).1

end Transclusion.FileTree
