import Transclusion.Proofs.Includes.Raised

/-!
# Faults that name a file

* `Fault.NamesFile` : the fault is not of a text or a stream without a name;
* `Backend.NamesFiles` : a backend's faults name files, none of which is called like a stream;
* `Includer.handle_faults` : then so do those of includes, however deep they come from;
* `Memory.noting_namesFiles` : files in memory are such a backend.
-/

namespace Transclusion

open Run

variable {σ : Type}

namespace Fault

/-- The fault is told of a file or has its own kind; it is not of a text or stream without a name. -/
def NamesFile : Fault → Prop
  | .yaml _ => False
  | .io _ path _ => path ≠ streamPath
  | _ => True

theorem named_eq_self {f : Fault} (h : f.NamesFile) (path : String) : f.named path = f := by
  cases f with
  | io operation stream cause =>
    unfold named
    dsimp only
    rw [if_neg h]
  | yaml cause => cases h
  | _ => rfl

theorem namesFile_named {path : String} (h : path ≠ streamPath) (f : Fault) : (f.named path).NamesFile := by
  cases f with
  | io operation stream cause =>
    unfold named NamesFile
    dsimp only
    split
    · exact h
    · assumption
  | _ => trivial

theorem namesFile_ofIo {path : String} (h : path ≠ streamPath) (operation : String) (cause : IoFault) :
    (ofIo operation path cause).NamesFile := by
  unfold ofIo
  split
  · trivial
  · exact h

theorem admits_namesFile : Admits NamesFile where
  directive {c} h := by cases c <;> trivial
  flatten _ _ := trivial
  missing _ := trivial

end Fault

/-! ## Nested includes -/

/-- Faults of the backend name files, and what it opens is not called like a stream. -/
structure Backend.NamesFiles (b : Backend (StateM σ)) : Prop where
  glob : ∀ pattern args, (b.glob pattern args).Faults Fault.NamesFile
  openOne : ∀ path args, (b.openOne path args).Faults Fault.NamesFile
  openMatching : ∀ pattern args, (b.openMatching pattern args).Faults Fault.NamesFile
  opened : ∀ path args, (b.openOne path args).Always (·.path ≠ streamPath)
  openedAll : ∀ pattern args, (b.openMatching pattern args).Always fun files =>
    ∀ file ∈ files, file.path ≠ streamPath

theorem Backend.NamesFiles.raises {b : Backend (StateM σ)} (h : b.NamesFiles) :
    b.Raises Fault.NamesFile (· ≠ streamPath) :=
  ⟨h.glob, h.openOne, h.openMatching, h.opened, h.openedAll⟩

namespace Includer

variable {I : Includer (StateM σ)} {E : Regex.Engine} {table : Option (FormatTable E)}

/-- Whatever happens inside of a file, the fault that comes out of it names a file. -/
theorem parseContentWith_faults (hl : I.loader = table.map FormatTable.loader)
    {resolve : Directive → Run (StateM σ) Value} {path : String} (hp : path ≠ streamPath) (c : Content) :
    (I.parseContentWith resolve path c).Faults Fault.NamesFile := by
  unfold parseContentWith
  rw [hl]
  cases table with
  | none => exact Faults.mapFault (Fault.namesFile_named hp)
  | some t =>
    dsimp only [Option.map_some]
    unfold FormatTable.loader
    split
    · exact Faults.raise trivial
    · rename_i f hf
      refine Faults.bind_any ?_ fun text => ?_
      · unfold Content.readAs
        split
        · exact Faults.pure _
        · exact Faults.raise (Fault.namesFile_ofIo hp _ _)
      · by_cases hyaml : f = .yaml
        · subst hyaml
          exact Faults.mapFault (Fault.namesFile_named hp)
        · intro s g s' h
          obtain ⟨cause, -, hg, -⟩ := (Format.parse_ends_error_iff hyaml).mp h
          cases hg
          trivial

/-- The faults of an include name files, however deep in it they come from. -/
theorem handle_faults (hl : I.loader = table.map FormatTable.loader) (hb : I.backend.NamesFiles)
    (p : Value) : (I.handle I.resolve p).Faults Fault.NamesFile := by
  unfold handle
  refine Faults.bind_any (Faults.ofExcept fun c hc => ?_) fun d => ?_
  · exact Fault.admits_namesFile.directive (Directive.ofDirective_of_ofNode c hc)
  split
  · unfold resolve
    cases I.nesting with
    | zero => exact Faults.throw nofun
    | succ left =>
      refine resolveWith_faults Fault.admits_namesFile ?_ hb.raises
      exact fun path c hp => parseContentWith_faults hl hp c
  · exact Faults.pure _

end Includer

/-- Where faults of the backend name files, so do those of whatever is included. -/
theorem FirstFailure.namesFile {I : Includer (StateM σ)} {E : Regex.Engine} {table : Option (FormatTable E)}
    (hl : I.loader = table.map FormatTable.loader) (hb : I.backend.NamesFiles) {g : Fault} {v : Value}
    {s s' : σ} (h : FirstFailure I.isInclude (I.handle I.resolve) (.fault g) s' s v) : g.NamesFile :=
  h.raised_by (P := fun e => ∀ g, e = .fault g → g.NamesFile)
    (fun w s e s' he g hg => by subst hg; exact Includer.handle_faults hl hb w s g s' he) g rfl

theorem Memory.noting_namesFiles {files : List (String × String)} (h : ∀ f ∈ files, f.1 ≠ streamPath) :
    (Memory.noting files).backend.NamesFiles := by
  have hraises := Memory.noting_raises (R := (· ≠ streamPath)) Fault.admits_namesFile h
  exact ⟨hraises.glob, hraises.openOne, hraises.openMatching, hraises.opened, hraises.openedAll⟩

end Transclusion
