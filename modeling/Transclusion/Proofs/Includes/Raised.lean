import Transclusion.Format.Table
import Transclusion.Proofs.Directives.Grammar
import Transclusion.Proofs.Includes.Failures

/-!
# Which faults an include can raise

* `Fault.OfDirective` : the fault is one of a directive or of its parameters;
* `Directive.ofDirective_of_ofNode`, `Plan.ofDirective_of_ofParams` : so are those of payloads;
* `Backend.Raises` : a backend raises only such faults, and opens only files under such paths;
* `Includer.resolveWith_faults` : then a directive raises no others;
* `Includer.resolve_faults` : no include is the first to say that a place of a tree is lost;
* `Memory.noting_raises` : what files in memory raise.
-/

namespace Transclusion

open Run

variable {σ : Type}

namespace Fault

def OfDirective : Fault → Prop
  | .invalidDirective _ => True
  | .config _ => True
  | .unsupportedScheme _ _ => True
  | _ => False

/-- All faults are admitted that a directive can have which opens no file or none of the right kind. -/
structure Admits (P : Fault → Prop) : Prop where
  directive : ∀ {c : Fault}, c.OfDirective → P c
  flatten : ∀ path found, P (.flattenNotSequence path found)
  missing : ∀ path, P (.notFound path)

/-- The fault is not that a place of a tree is lost. -/
def OfInclude : Fault → Prop
  | .notMutable _ => False
  | _ => True

theorem admits_ofInclude : Admits OfInclude where
  directive {c} h := by cases c <;> trivial
  flatten _ _ := trivial
  missing _ := trivial

theorem ofInclude_named {c : Fault} (h : c.OfInclude) (path : String) : (c.named path).OfInclude := by
  cases c <;> trivial

end Fault

/-! ## Payloads and parameters -/

namespace Directive

theorem ofDirective_of_targetText {v : Value} : ∀ c, targetText v = .error c → c.OfDirective := by
  intro c h
  cases v <;> cases h <;> trivial

theorem ofDirective_of_ofTarget {target : String} : ∀ c, ofTarget target = .error c → c.OfDirective := by
  intro c h
  unfold ofTarget at h
  split at h <;> cases h
  trivial

theorem ofDirective_of_mappingTarget {es : Entries} : ∀ c, mappingTarget es = .error c → c.OfDirective := by
  intro c h
  unfold mappingTarget at h
  split at h
  · cases h
    trivial
  · exact ofDirective_of_targetText c h
  · exact ofDirective_of_targetText c h
  · cases h
    trivial

theorem ofDirective_of_flattenFlag {v : Value} : ∀ c, flattenFlag v = .error c → c.OfDirective := by
  intro c h
  obtain ⟨cause, rfl⟩ := config_of_flattenFlag h
  trivial

theorem ofDirective_of_mappingFlatten {es : Entries} : ∀ c, mappingFlatten es = .error c → c.OfDirective := by
  intro c h
  unfold mappingFlatten at h
  split at h
  · exact ofDirective_of_flattenFlag c h
  · cases h

theorem ofDirective_of_ofNode {p : Value} : ∀ c, ofNode p = .error c → c.OfDirective := by
  have hscalar : ∀ v : Value, ∀ c, (do ofTarget (← targetText v)) = .error c → c.OfDirective :=
    fun v => forall_error_bind ofDirective_of_targetText fun target => ofDirective_of_ofTarget
  cases p with
  | sequence items =>
    cases items with
    | nil =>
      intro c h
      cases h
      trivial
    | cons first rest =>
      refine forall_error_bind ofDirective_of_targetText fun target => ?_
      exact forall_error_bind ofDirective_of_ofTarget fun d c h => by cases h
  | mapping es =>
    intro c h
    rw [ofNode, ofMapping] at h
    split at h
    · cases h
      trivial
    · revert c
      refine forall_error_bind ofDirective_of_mappingTarget fun target => ?_
      refine forall_error_bind ofDirective_of_ofTarget fun d => ?_
      exact forall_error_bind ofDirective_of_mappingFlatten fun flatten c h => by cases h
  | _ => exact hscalar _

end Directive

theorem ofDirective_of_depth {v : Value} : ∀ c, depth v = .error c → c.OfDirective := by
  intro c h
  unfold depth at h
  split at h
  · cases h
  · split at h <;> cases h
    trivial
  · split at h <;> cases h
    trivial
  · cases h
    trivial

theorem Listing.ofDirective_of_ofValue {v : Option Value} : ∀ c, ofValue v = .error c → c.OfDirective := by
  intro c h
  unfold ofValue at h
  split at h
  · cases h
  · cases h
  · revert c
    refine forall_error_bind (fun c h => ?_) fun named c h => by cases h
    unfold withDepth at h
    split at h
    · cases h
    · revert c
      exact forall_error_bind ofDirective_of_depth fun d c h => by cases h
  · cases h
  · revert c
    exact forall_error_bind ofDirective_of_depth fun d c h => by cases h
  · cases h
    trivial
  · split at h <;> cases h

theorem Plan.ofDirective_of_ofParams {positional : List Value} {named : Entries} :
    ∀ c, ofParams positional named = .error c → c.OfDirective := by
  unfold ofParams
  refine forall_error_bind Listing.ofDirective_of_ofValue fun listing => ?_
  refine forall_error_bind (fun c h => ?_) fun opening c h => by cases h
  unfold Opening.ofValue at h
  split at h <;> cases h
  trivial

/-! ## Directives -/

/-- The backend raises only faults like `P`, and all that it opens is under paths like `R`. -/
structure Backend.Raises (b : Backend (StateM σ)) (P : Fault → Prop) (R : String → Prop) : Prop where
  glob : ∀ pattern args, (b.glob pattern args).Faults P
  openOne : ∀ path args, (b.openOne path args).Faults P
  openMatching : ∀ pattern args, (b.openMatching pattern args).Faults P
  opened : ∀ path args, (b.openOne path args).Always fun file => R file.path
  openedAll : ∀ pattern args, (b.openMatching pattern args).Always fun files =>
    ∀ file ∈ files, R file.path

namespace Includer

variable {I : Includer (StateM σ)} {P : Fault → Prop} {R : String → Prop}
variable {parse : String → Content → Run (StateM σ) Value} {d : Directive}

section Directives
variable (hP : Fault.Admits P) (hparse : ∀ path c, R path → (parse path c).Faults P)
include hP hparse

theorem gather_faults {α : Type} {flatten : Bool} {openOne : α → Seek (StateM σ) Opened} {files : List α}
    (hopen : ∀ a ∈ files, (openOne a).run.Faults P)
    (hopened : ∀ a ∈ files, Seek.Always (fun file => R file.path) (openOne a)) :
    (gather flatten parse openOne files).run.Faults P := by
  induction files with
  | nil => exact Faults.pure _
  | cons a rest ih =>
    have hrest := ih (fun b hb => hopen b (List.mem_cons_of_mem a hb))
      fun b hb => hopened b (List.mem_cons_of_mem a hb)
    rw [gather]
    refine Seek.faults_bind (hopen a List.mem_cons_self) (hopened a List.mem_cons_self) fun file hfile => ?_
    refine Seek.faults_bind_any (Seek.faults_lift ?_) fun items => ?_
    · refine (hparse file.path file.content hfile).bind_any fun v => ?_
      unfold pieces
      split
      · split
        · exact Faults.pure _
        · exact Faults.raise (hP.flatten _ _)
      · exact Faults.pure _
    · exact Seek.faults_bind_any hrest fun others => Faults.pure _

theorem found_faults (hb : I.backend.Raises P R) (route : Route) (path : String) :
    (I.found parse d route path).run.Faults P := by
  unfold found
  cases route with
  | remoteGlob =>
    refine Seek.faults_bind (Seek.faults_own (hb.openMatching _ _))
      (Seek.always_own (hb.openedAll _ _)) fun files hfiles => ?_
    refine Seek.faults_bind_any (gather_faults hP hparse (fun _ _ => Faults.pure _) fun file hfile => ?_)
      fun vs => Faults.pure _
    exact Seek.Always.pure (hfiles file hfile)
  | localGlob =>
    refine Seek.faults_bind_any (Seek.faults_lift (Faults.ofExcept fun c h => hP.directive (Plan.ofDirective_of_ofParams c h)))
      fun plan => ?_
    refine Seek.faults_bind_any (Seek.faults_own (hb.glob _ _)) fun paths => ?_
    refine Seek.faults_bind_any ?_ fun vs => Faults.pure _
    exact gather_faults hP hparse (fun p _ => Seek.faults_own (hb.openOne p _))
      fun p _ => Seek.always_own (hb.opened p _)
  | remoteSingle | localSingle =>
    refine Seek.faults_bind (Seek.faults_own (hb.openOne _ _)) (Seek.always_own (hb.opened _ _))
      fun file hfile => ?_
    exact Seek.faults_lift (hparse _ _ hfile)

theorem resolveWith_faults (hb : I.backend.Raises P R) :
    (I.resolveWith parse d).Faults P := by
  unfold resolveWith
  refine Faults.bind_any (Faults.lift _) fun base => ?_
  refine Faults.bind_any (found_faults hP hparse hb _ _) fun x => ?_
  split
  · exact Faults.pure _
  · split
    · unfold defaultValue
      split
      · exact Faults.orElseOn fun _ => Faults.pure _
      · exact Faults.pure _
    · exact Faults.raise (hP.missing _)

end Directives

/-! ## Places -/

/-- Neither the backend nor the loader says that a place of a tree is lost, unless what it is given to
parse texts with has said so. -/
structure KeepsPlaces (I : Includer (StateM σ)) : Prop where
  backend : I.backend.Raises Fault.OfInclude fun _ => True
  loader : ∀ load, I.loader = some load → ∀ parseText : String → String → Run (StateM σ) Value,
    (∀ path text, (parseText path text).Faults Fault.OfInclude) →
    ∀ path c, (load parseText path c).Faults Fault.OfInclude

variable {resolve : Directive → Run (StateM σ) Value}

theorem loadWith_faults (hr : ∀ d, (resolve d).Faults Fault.OfInclude) (text : String) :
    (I.loadWith resolve text).Faults Fault.OfInclude := by
  unfold loadWith
  refine Faults.bind_any ?_ fun v => ?_
  · unfold Run.ofYaml
    split
    · exact Faults.pure _
    · exact Faults.raise trivial
  · intro s c s' h
    refine FirstFailure.raised_by (P := fun e => ∀ c, e = .fault c → c.OfInclude) ?_
      (construct_ends_error_iff.mp h) c rfl
    rintro p s e s' he c rfl
    refine Faults.bind_any (Faults.ofExcept fun c hc => ?_) (fun d => ?_) s c s' he
    · exact Fault.admits_ofInclude.directive (Directive.ofDirective_of_ofNode c hc)
    · split
      · exact hr d
      · exact Faults.pure _

theorem parseContentWith_ofInclude (hI : I.KeepsPlaces) (hr : ∀ d, (resolve d).Faults Fault.OfInclude)
    (path : String) (c : Content) : (I.parseContentWith resolve path c).Faults Fault.OfInclude := by
  have hnamed : ∀ {r : Run (StateM σ) Value} {path}, r.Faults Fault.OfInclude →
      (r.mapFault (Fault.named path)).Faults Fault.OfInclude := by
    intro r path hr s c s' h
    obtain ⟨c', hc', rfl⟩ := ends_fault_mapFault.mp h
    exact Fault.ofInclude_named (hr s c' s' hc') path
  unfold parseContentWith
  split
  · rename_i load hload
    exact hI.loader load hload _ (fun path text => hnamed (loadWith_faults hr text)) path c
  · refine hnamed (Faults.bind_any ?_ fun text => loadWith_faults hr text)
    unfold Content.readAs
    split
    · exact Faults.pure _
    · refine Faults.raise ?_
      unfold Fault.ofIo
      split <;> trivial

/-- Nothing that is included says that a place of a tree is lost. -/
theorem resolve_faults (hI : I.KeepsPlaces) (d : Directive) : (I.resolve d).Faults Fault.OfInclude := by
  have hall : ∀ left d, (I.resolveAt left d).Faults Fault.OfInclude := by
    intro left
    induction left with
    | zero => exact fun d => Faults.throw nofun
    | succ left ih =>
      intro d
      refine resolveWith_faults Fault.admits_ofInclude ?_ hI.backend
      exact fun path c _ => parseContentWith_ofInclude hI ih path c
  exact hall I.nesting d

end Includer

/-! ## Files in memory -/

namespace Memory

variable {files : List (String × String)} {P : Fault → Prop} {R : String → Prop}

theorem faults_paths (hP : Fault.Admits P) {pattern : String} :
    ∀ c, (Memory.mk files).paths pattern = .error c → P c := by
  intro c h
  unfold paths at h
  split at h <;> cases h
  exact hP.directive trivial

theorem faults_file (hP : Fault.Admits P) {path : String} :
    ∀ c, (Memory.mk files).file path = .error c → P c := by
  intro c h
  unfold file at h
  split at h <;> cases h
  exact hP.missing path

theorem noting_raises (hP : Fault.Admits P) (h : ∀ f ∈ files, R f.1) :
    (Memory.noting files).backend.Raises P R := by
  have hnote : ∀ call : Call, Faults P
      (ExceptT.lift (modify (· ++ [call])) : Run (StateM (List Call)) Unit) := fun _ => Faults.lift _
  have hopened : ∀ path opened, (Memory.mk files).file path = .ok opened → R opened.path := by
    intro path opened hfile
    obtain ⟨f, hf, rfl⟩ := file_eq_ok hfile
    exact h f hf
  constructor
  case glob => exact fun pattern args => (hnote _).bind_any fun _ => Faults.ofExcept (faults_paths hP)
  case openOne => exact fun path args => (hnote _).bind_any fun _ => Faults.ofExcept (faults_file hP)
  case openMatching =>
    refine fun pattern args => (hnote _).bind_any fun _ => Faults.ofExcept ?_
    exact forall_error_bind (faults_paths hP) fun paths => forall_error_mapM fun _ _ => faults_file hP
  case opened => exact fun path args => Always.bind_any fun _ => Always.ofExcept (hopened path)
  case openedAll =>
    refine fun pattern args => Always.bind_any fun _ => Always.ofExcept fun opened hall => ?_
    obtain ⟨paths, -, hall⟩ := exists_of_bind_eq_ok hall
    exact forall_mem_of_mapM_eq_ok hopened hall

end Memory

end Transclusion
