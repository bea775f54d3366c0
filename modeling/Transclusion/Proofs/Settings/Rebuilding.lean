import Transclusion.Includer.Basic
import Transclusion.Memory
import Transclusion.Proofs.Results

/-!
# Includers built again from their settings

The settings of an includer name its tag by the written form, which has one mark in front of the bare name. A name loses
one mark when a tag is made of it, and another when tags are compared.

* `Tag.bare_bare_iff` : the bare name of a tag has itself as its bare name, unless more marks are left in front of it;
* `Includer.tagOfName_eq_ok_iff` : the names of tags, and their tags;
* `Includer.tagOfName_text` : the written form of a tag names the tag of its bare name;
* `Includer.Options.build_ofIncluder` : what an includer is built again as, and when its tag is lost.
-/

namespace Transclusion

/-! ## Marks -/

namespace Tag

variable {c : Char} {cs : List Char} {t : Tag}

theorem bareChars_of_ne (h : c ≠ '!') : bareChars (c :: cs) = c :: cs := by
  unfold bareChars
  split
  · simp_all
  · simp_all
  · rfl

theorem bareChars_cons (c : Char) (cs : List Char) : bareChars ('!' :: c :: cs) = c :: cs := rfl

theorem bareChars_ne_nil (h : cs ≠ []) : bareChars cs ≠ [] := by
  unfold bareChars
  split
  · exact List.cons_ne_nil _ _
  · rename_i rest hne
    rintro rfl
    exact hne rfl
  · exact h

theorem mem_of_mem_bareChars (h : c ∈ bareChars cs) : c ∈ cs := by
  unfold bareChars at h
  split at h
  · exact h
  · exact List.mem_cons_of_mem _ h
  · exact h

theorem bareChars_bareChars_iff :
    bareChars (bareChars cs) = bareChars cs ↔ ¬ ∃ c rest, cs = '!' :: '!' :: c :: rest := by
  rcases cs with _ | ⟨a, _ | ⟨b, rest⟩⟩
  · simp [bareChars]
  · by_cases ha : a = '!'
    · simp [ha, bareChars]
    · simp [bareChars_of_ne ha]
  by_cases ha : a = '!'
  · subst ha
    rw [bareChars_cons]
    by_cases hb : b = '!'
    · cases rest <;> simp [hb, bareChars]
    · simp [hb, bareChars_of_ne hb]
  · simp [ha, bareChars_of_ne ha]

theorem bare_bare_iff : (Tag.mk t.bare).bare = t.bare ↔ ¬ ∃ c rest, t.name.toList = '!' :: '!' :: c :: rest := by
  rw [← bareChars_bareChars_iff, bare, bare, String.toList_ofList, String.ofList_inj]

end Tag

namespace Includer

variable {m : Type → Type} {name : String} {tag t : Tag}

/-! ## Names of tags -/

def unmarked : List Char → List Char
  | '!' :: rest => rest
  | cs => cs

/-- What is left of a name is not empty, and has no blank in it. -/
def Nameable (cs : List Char) : Prop := cs ≠ [] ∧ ∀ c ∈ cs, Text.isBlank c = false

theorem tagOfName_eq_ok_iff : tagOfName name = .ok tag ↔
    Nameable (unmarked name.toList) ∧ tag = ⟨String.ofList (unmarked name.toList)⟩ := by
  have hname : tagOfName name =
      if (unmarked name.toList).isEmpty || (unmarked name.toList).any Text.isBlank then .error (.config (.tagName name))
      else .ok ⟨String.ofList (unmarked name.toList)⟩ := rfl
  rw [hname]
  split
  · rename_i h
    constructor
    · exact nofun
    · rintro ⟨⟨hne, hblank⟩, -⟩
      simp only [Bool.or_eq_true, List.isEmpty_iff, hne, false_or, List.any_eq_true] at h
      obtain ⟨c, hc, hc'⟩ := h
      rw [hblank c hc] at hc'
      cases hc'
  · rename_i h
    simp only [Bool.or_eq_true, List.isEmpty_iff, not_or, List.any_eq_true, not_exists, not_and, Bool.not_eq_true] at h
    constructor
    · intro heq
      exact ⟨h, (Except.ok.inj heq).symm⟩
    · rintro ⟨-, rfl⟩
      rfl

theorem Nameable.bare {cs : List Char} (h : Nameable cs) : Nameable (Tag.bareChars cs) :=
  ⟨Tag.bareChars_ne_nil h.1, fun c hc => h.2 c (Tag.mem_of_mem_bareChars hc)⟩

theorem tagOfName_text (h : Nameable t.name.toList) : tagOfName t.text = .ok ⟨t.bare⟩ := by
  have hunmarked : unmarked t.text.toList = t.bare.toList := by
    rw [Tag.text, String.toList_append]
    rfl
  rw [tagOfName_eq_ok_iff, hunmarked, String.ofList_toList, Tag.bare, String.toList_ofList]
  exact ⟨h.bare, rfl⟩

/-- Includers recognise the same tags if and only if their own tags have the same bare name. -/
theorem isInclude_congr_iff {I J : Includer m} :
    (∀ t, J.isInclude t = I.isInclude t) ↔ J.tag.bare = I.tag.bare := by
  constructor
  · intro h
    have hown : J.isInclude I.tag = true := (h I.tag).trans (Tag.same_refl I.tag)
    exact (Tag.same_iff.mp hown).symm
  · intro h t
    rw [isInclude, isInclude, Tag.same, Tag.same, h]

/-! ## Settings -/

namespace Options

variable {o : Options m} {I : Includer m}

/-- The tag of an includer is the usual one, or is named by the settings, which do not say how deep includes may be
nested. -/
theorem exists_tag_of_build (h : o.build = .ok I) : ∃ tag,
    (o.tag = none ∧ tag = includeTag ∨ ∃ name, o.tag = some name ∧ tagOfName name = .ok tag) ∧
      I = { backend := o.backend, baseDir := o.baseDir, autoload := o.autoload.getD true, loader := o.loader,
            tag := tag } := by
  unfold build at h
  cases htag : o.tag with
  | none =>
    rw [htag] at h
    cases h
    exact ⟨_, .inl ⟨rfl, rfl⟩, rfl⟩
  | some name =>
    rw [htag] at h
    obtain ⟨tag, hname, hI⟩ := exists_of_bind_eq_ok h
    cases hI
    exact ⟨tag, .inr ⟨name, rfl, hname⟩, rfl⟩

theorem nameable_of_build (h : o.build = .ok I) : Nameable I.tag.name.toList := by
  obtain ⟨tag, ⟨-, rfl⟩ | ⟨name, -, hname⟩, rfl⟩ := exists_tag_of_build h
  · have hblank : includeTag.name.toList.all (!Text.isBlank ·) = true := by decide
    have hname : Nameable includeTag.name.toList := ⟨by decide, by simpa using List.all_eq_true.mp hblank⟩
    exact hname
  · obtain ⟨hnameable, rfl⟩ := tagOfName_eq_ok_iff.mp hname
    rwa [String.toList_ofList]

/-- A name with three marks or more in front of something else. -/
def Overmarked (name : String) : Prop := ∃ c rest, name.toList = '!' :: '!' :: '!' :: c :: rest

/-- Two marks are left in front of something else if there were three in the name. -/
theorem overmarked_iff (h : o.build = .ok I) :
    (∃ c rest, I.tag.name.toList = '!' :: '!' :: c :: rest) ↔ ∃ name, o.tag = some name ∧ Overmarked name := by
  obtain ⟨tag, ⟨hnone, rfl⟩ | ⟨name, hsome, hname⟩, rfl⟩ := exists_tag_of_build h
  · simp [hnone, includeTag]
  · obtain ⟨-, rfl⟩ := tagOfName_eq_ok_iff.mp hname
    rw [String.toList_ofList]
    simp only [hsome, Option.some.injEq, exists_eq_left', Overmarked]
    -- what is left of a name without a mark in front does not begin with one
    unfold unmarked
    split
    · rename_i rest hrest
      simp [hrest]
    · rename_i hne
      constructor
      · rintro ⟨c, rest, hcs⟩
        exact absurd hcs (hne _)
      · rintro ⟨c, rest, hcs⟩
        exact absurd hcs (hne _)

/-- **An includer can be built again from its own settings, and only its tag can be lost.** Everything else is as it
was; the tags that are recognised are the same if and only if the name that the tag was given by did not have three
marks in front of something else. -/
theorem build_ofIncluder (h : o.build = .ok I) :
    ∃ J, (ofIncluder I).build = .ok J ∧ J = { I with tag := J.tag } ∧
      ((∀ t, J.isInclude t = I.isInclude t) ↔ ¬ ∃ name, o.tag = some name ∧ Overmarked name) := by
  have htext : tagOfName I.tag.text = .ok ⟨I.tag.bare⟩ := tagOfName_text (nameable_of_build h)
  have hbuild : (ofIncluder I).build = .ok { I with tag := ⟨I.tag.bare⟩ } := by
    obtain ⟨tag, -, rfl⟩ := exists_tag_of_build h
    unfold build ofIncluder
    dsimp only
    rw [htext]
    rfl
  refine ⟨_, hbuild, rfl, ?_⟩
  rw [isInclude_congr_iff, ← overmarked_iff h]
  exact Tag.bare_bare_iff

def named (name : String) : Options Id := { backend := (Memory.ofList []).backend, tag := some name }

theorem build_ofIncluder_twoMarks : ∃ I J, (named "!!x").build = .ok I ∧ (ofIncluder I).build = .ok J ∧
    J = { I with tag := J.tag } ∧ ∀ t, J.isInclude t = I.isInclude t := by
  have hnamed : (named "!!x").build = .ok { backend := (Memory.ofList []).backend, tag := ⟨"!x"⟩ } := rfl
  obtain ⟨J, hJ, hsame, hrecognised⟩ := build_ofIncluder hnamed
  refine ⟨_, J, hnamed, hJ, hsame, hrecognised.mpr ?_⟩
  rintro ⟨name, hname, c, rest, hcs⟩
  cases hname
  cases hcs

/-- Of three marks one is lost: the includer does not recognise its own tag any more. -/
theorem rebuilt_without_tag : ∃ I J, (named "!!!x").build = .ok I ∧ (ofIncluder I).build = .ok J ∧
    I.isInclude I.tag = true ∧ J.isInclude I.tag = false := by
  refine ⟨_, _, rfl, rfl, ?_, ?_⟩ <;> decide

end Options
end Includer
end Transclusion
