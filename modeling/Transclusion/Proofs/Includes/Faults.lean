import Transclusion.Disk.Tree
import Transclusion.Local
import Transclusion.Proofs.Includes.Defaults
import Transclusion.Proofs.Includes.Named
import Transclusion.Proofs.Values.Document

/-!
# What a content fails with

A file is told of in the faults that it is to blame for, and an include that fails inside of it is
told of as it failed.

* `Includer.Tells` : the fault that is told of a content;
* `Includer.parseContent_ends_iff` : a content fails with nothing else;
* `Includer.parseContent_renames` : a file that is called like a stream is told of by another name.
-/

namespace Transclusion

open Run

variable {σ : Type}

/-- The format of the content of a file: by its path if there is a table, a document otherwise. -/
def formatOf {E : Regex.Engine} : Option (FormatTable E) → String → Option Format
  | some table, path => table.format? path
  | none, _ => some .yaml

namespace Includer

variable {I : Includer (StateM σ)} {E : Regex.Engine} {table : Option (FormatTable E)}

/-- The fault `f` is told of the content of the file `path`: that there is no format for it, that it
is no text, that it is no text of its format, or what the first include in it that fails fails with. -/
def Tells (I : Includer (StateM σ)) {E : Regex.Engine} (table : Option (FormatTable E)) (path : String) (c : Content)
    (s s' : σ) (f : Fault) : Prop :=
  match formatOf table path, c.text? with
  | none, _ => .unsupportedFormat path = f ∧ s = s'
  | some _, .error cause => .io "reading" path cause = f ∧ s = s'
  | some format, .ok text =>
    (∃ cause, format.Rejects text cause ∧ .parse path cause = f ∧ s = s') ∨
      ∃ v, format = .yaml ∧ Value.ofYaml text = .ok v ∧
        FirstFailure I.isInclude (I.handle I.resolve) (.fault f) s' s v

section Contents
variable {path : String} {c : Content} {s s' : σ} {f : Fault}

theorem tells_of_no_format (hformat : formatOf table path = none) :
    I.Tells table path c s s' f ↔ .unsupportedFormat path = f ∧ s = s' := by
  unfold Tells
  rw [hformat]

theorem tells_of_no_text {format : Format} {cause : IoFault} (hformat : formatOf table path = some format)
    (htext : c.text? = .error cause) :
    I.Tells table path c s s' f ↔ .io "reading" path cause = f ∧ s = s' := by
  unfold Tells
  rw [hformat, htext]

theorem tells_of_text {format : Format} {text : String} (hformat : formatOf table path = some format)
    (htext : c.text? = .ok text) :
    I.Tells table path c s s' f ↔
      (∃ cause, format.Rejects text cause ∧ .parse path cause = f ∧ s = s') ∨
        ∃ v, format = .yaml ∧ Value.ofYaml text = .ok v ∧
          FirstFailure I.isInclude (I.handle I.resolve) (.fault f) s' s v := by
  unfold Tells
  rw [hformat, htext]

/-- A text that is read as a document is told of, or fails as what is included in it does. -/
theorem parseTextWith_ends_iff_tells {text : String} (hformat : formatOf table path = some .yaml)
    (htext : c.text? = .ok text)
    (hnames : ∀ v g, Value.ofYaml text = .ok v →
      FirstFailure I.isInclude (I.handle I.resolve) (.fault g) s' s v → g.NamesFile) :
    (I.parseTextWith I.resolve path text).Ends s (.error (.fault f)) s' ↔ I.Tells table path c s s' f := by
  rw [parseTextWith_ends_fault_iff, tells_of_text hformat htext]
  constructor
  · rintro (⟨cause, hread, hf, hs⟩ | ⟨v, g, hv, h, rfl⟩)
    · exact .inl ⟨.yaml cause, .yaml hread, hf, hs⟩
    · rw [Fault.named_eq_self (hnames v g hv h)]
      exact .inr ⟨v, rfl, hv, h⟩
  · rintro (⟨cause, hreject, hf, hs⟩ | ⟨v, -, hv, h⟩)
    · cases hreject with | yaml hread => exact .inl ⟨_, hread, hf, hs⟩
    · exact .inr ⟨v, f, hv, h, Fault.named_eq_self (hnames v f hv h) path⟩

theorem parse_ends_iff_tells {format : Format} {text : String}
    {parseText : String → String → Run (StateM σ) Value} (hformat : formatOf table path = some format)
    (htext : c.text? = .ok text) (hyaml : format ≠ .yaml) :
    (format.parse parseText path text).Ends s (.error (.fault f)) s' ↔ I.Tells table path c s s' f := by
  rw [Format.parse_ends_error_iff hyaml, tells_of_text hformat htext]
  constructor
  · rintro ⟨cause, hreject, hf, hs⟩
    cases hf
    exact .inl ⟨cause, hreject, rfl, hs⟩
  · rintro (⟨cause, hreject, rfl, hs⟩ | ⟨v, hv, -⟩)
    · exact ⟨cause, hreject, rfl, hs⟩
    · exact absurd hv hyaml

theorem readAs_bind_ends_iff {cause : IoFault} {read : String → Run (StateM σ) Value}
    (hc : ∀ cause, c.bytes = .error cause → cause.kind ≠ .notFound) (htext : c.text? = .error cause) :
    (c.readAs path >>= read).Ends s (.error (.fault f)) s' ↔ .io "reading" path cause = f ∧ s = s' := by
  have hkind : cause.kind ≠ .notFound := by
    unfold Content.text? at htext
    cases hbytes : c.bytes with
    | error e =>
      rw [hbytes] at htext
      cases htext
      exact hc _ hbytes
    | ok bytes =>
      rw [hbytes] at htext
      dsimp only [bind, Except.bind] at htext
      split at htext <;> cases htext
      decide
  have hread : (c.readAs path : Run (StateM σ) String) = throw (.fault (.io "reading" path cause)) := by
    unfold Content.readAs Fault.ofIo
    rw [htext]
    dsimp only
    rw [if_neg hkind]
    rfl
  rw [hread, ends_error_bind, ends_error_throw]
  constructor
  · rintro (⟨hf, hs⟩ | ⟨text, s₁, h, -⟩)
    · cases hf
      exact ⟨rfl, hs⟩
    · exact absurd h not_returns_throw
  · rintro ⟨rfl, hs⟩
    exact .inl ⟨rfl, hs⟩

theorem readAs_of_ok {text : String} (htext : c.text? = .ok text) (path : String) :
    (c.readAs path : Run (StateM σ) String) = pure text := by
  unfold Content.readAs
  rw [htext]

/-- **A content is told of by its own path, and what is included in it as it failed.** No format, no
text, no text of the format: each of these is told of `path`. All else is the fault of the first
include that failed, as it was when it was raised, as long as no file in it is called like a stream. -/
theorem parseContent_ends_iff (hl : I.loader = table.map FormatTable.loader)
    (hc : ∀ cause, c.bytes = .error cause → cause.kind ≠ .notFound)
    (hnames : ∀ text v g, c.text? = .ok text → Value.ofYaml text = .ok v →
      FirstFailure I.isInclude (I.handle I.resolve) (.fault g) s' s v → g.NamesFile) :
    (I.parseContent path c).Ends s (.error (.fault f)) s' ↔ I.Tells table path c s s' f := by
  unfold parseContent parseContentWith
  rw [hl]
  cases table with
  | none =>
    dsimp only [Option.map_none]
    unfold loadContentWith
    cases htext : c.text? with
    | error cause =>
      rw [ends_fault_mapFault, tells_of_no_text rfl htext]
      simp only [readAs_bind_ends_iff hc htext]
      constructor
      · rintro ⟨g, ⟨rfl, hs⟩, hf⟩
        exact ⟨hf, hs⟩
      · rintro ⟨hf, hs⟩
        exact ⟨_, ⟨rfl, hs⟩, hf⟩
    | ok text =>
      rw [readAs_of_ok htext, pure_bind]
      exact parseTextWith_ends_iff_tells rfl htext fun v g => hnames text v g htext
  | some t =>
    have hof : formatOf (some t) path = t.format? path := rfl
    dsimp only [Option.map_some, FormatTable.loader]
    cases hformat : t.format? path with
    | none =>
      dsimp only [raise]
      rw [ends_error_throw, tells_of_no_format (hof.trans hformat)]
      simp only [Failure.fault.injEq]
    | some format =>
      rw [hformat] at hof
      dsimp only
      cases htext : c.text? with
      | error cause => rw [readAs_bind_ends_iff hc htext, tells_of_no_text hof htext]
      | ok text =>
        rw [readAs_of_ok htext, pure_bind]
        by_cases hyaml : format = .yaml
        · subst hyaml
          exact parseTextWith_ends_iff_tells hof htext fun v g => hnames text v g htext
        · exact parse_ends_iff_tells hof htext hyaml

end Contents

def noTable : Option (FormatTable Regex.engine) := none

theorem parseContent_ends_iff_missing :
    (Memory.noting []).loader = noTable.map FormatTable.loader ∧
      (∀ cause, (Content.ofText "!inc a").bytes = .error cause → cause.kind ≠ .notFound) ∧
      (∀ text v g, (Content.ofText "!inc a").text? = .ok text → Value.ofYaml text = .ok v →
        FirstFailure (Memory.noting []).isInclude ((Memory.noting []).handle (Memory.noting []).resolve)
          (.fault g) [.openOne "a" {}] [] v → g.NamesFile) ∧
      ((Memory.noting []).parseContent "b" (.ofText "!inc a")).Ends []
        (.error (.fault (.notFound "a"))) [.openOne "a" {}] ∧
      (Memory.noting []).Tells noTable "b" (.ofText "!inc a") [] [.openOne "a" {}] (.notFound "a") := by
  have hl : (Memory.noting []).loader = noTable.map FormatTable.loader := rfl
  have hc : ∀ cause, (Content.ofText "!inc a").bytes = .error cause → cause.kind ≠ .notFound := nofun
  have hnames : ∀ text v g, (Content.ofText "!inc a").text? = .ok text → Value.ofYaml text = .ok v →
      FirstFailure (Memory.noting []).isInclude ((Memory.noting []).handle (Memory.noting []).resolve)
        (.fault g) [.openOne "a" {}] [] v → g.NamesFile :=
    fun _ _ _ _ _ h => h.namesFile hl (Memory.noting_namesFiles nofun)
  have hends : ((Memory.noting []).parseContent "b" (.ofText "!inc a")).Ends []
      (.error (.fault (.notFound "a"))) [.openOne "a" {}] := by
    unfold parseContent parseContentWith
    rw [show (Memory.noting []).loader = none from rfl]
    dsimp only
    rw [loadContentWith, readAs_of_ok (Content.text?_ofText _), pure_bind, loadWith, Value.ofYaml_include]
    rfl
  exact ⟨hl, hc, hnames, hends, (parseContent_ends_iff hl hc hnames).mp hends⟩

/-- A directory with a file that is called like a stream and is no text. -/
def streamLike : Includer (StateM Unit) :=
  { backend := Local.backend ((FileTree.dir [(streamPath, .file ⟨#[0xFF]⟩)]).disk []) }

/-- **A file that is called like a stream is told of by the name of the file that includes it.** Its own
fault, which says that it is no text, is taken for one that names no file yet. -/
theorem parseContent_renames :
    (streamLike.parseContent "a" (.ofText "!inc <stream>")).Ends ()
        (.error (.fault (.io "reading" "a" .notUtf8))) () ∧
      ¬ streamLike.Tells noTable "a" (.ofText "!inc <stream>") () () (.io "reading" "a" .notUtf8) ∧
      streamLike.Tells noTable "a" (.ofText "!inc <stream>") () () (.io "reading" streamPath .notUtf8) := by
  have hread : Value.ofYaml "!inc <stream>" = .ok (.tagged ⟨"inc"⟩ (.string streamPath)) :=
    Value.ofYaml_eq_ok (by decide +kernel)
  have hfails : (streamLike.constructTree (.tagged ⟨"inc"⟩ (.string streamPath))).Ends ()
      (.error (.fault (.io "reading" streamPath .notUtf8))) () := by
    rfl
  have hends : (streamLike.parseContent "a" (.ofText "!inc <stream>")).Ends ()
      (.error (.fault (.io "reading" "a" .notUtf8))) () := by
    unfold parseContent parseContentWith
    rw [show streamLike.loader = none from rfl]
    dsimp only
    rw [loadContentWith, readAs_of_ok (Content.text?_ofText _), pure_bind, loadWith, hread, ends_fault_mapFault]
    exact ⟨_, hfails, rfl⟩
  have hnone : formatOf noTable "a" = some .yaml := rfl
  have htext : (Content.ofText "!inc <stream>").text? = .ok "!inc <stream>" := Content.text?_ofText _
  refine ⟨hends, ?_, ?_⟩
  · rw [tells_of_text hnone htext, hread]
    rintro (⟨cause, hreject, h, -⟩ | ⟨v, -, hv, h⟩)
    · cases h
    · cases hv
      have hother := construct_ends_error_iff.mpr h
      -- the same tree would fail in two ways
      have heq := (hother.unique hfails).1
      simp only [Except.error.injEq, Failure.fault.injEq, Fault.io.injEq] at heq
      exact absurd heq.2.1 (by decide)
  · rw [tells_of_text hnone htext]
    exact .inr ⟨_, rfl, hread, construct_ends_error_iff.mp hfails⟩

end Includer
end Transclusion
