import Transclusion.Includer.Resolve
import Transclusion.Proofs.Results
import Transclusion.Proofs.Runs

/-!
# The calls of a directive

A resolution calls the backend for its own directive, and has what it opens, or a default, read. What
is read may hold further includes, whose calls come in between.

* `Deed`, `Deed.Row` : what is done for the directive itself, each deed from the state that the one
  before it left;
* `Deed.InTurn` : listed files are opened and read one after the other, up to the first failure;
* `Deed.Orderly` : what is done, by route, and for the default;
* `Deed.Orderly.unique` : there is one orderly row at most;
* `Includer.resolve_orderly` : every resolution is orderly.
-/

namespace Transclusion

variable {σ α : Type}

/-! ## What is done for a directive itself -/

/-- A call of the backend, or the reading of a content, each with what came of it. -/
inductive Deed where
  | glob (pattern : String) (args : Args) (answer : Except Failure (List String))
  | openOne (path : String) (args : Args) (answer : Except Failure Opened)
  | openMatching (pattern : String) (args : Args) (answer : Except Failure (List Opened))
  | parse (path : String) (content : Content) (answer : Except Failure Value)

namespace Deed

/-- The call that is made. Reading is none, whatever calls are made for the includes in it. -/
def call? : Deed → Option Call
  | glob pattern args _ => some (.glob pattern args)
  | openOne path args _ => some (.openOne path args)
  | openMatching pattern args _ => some (.openMatching pattern args)
  | parse _ _ _ => none

inductive Done (b : Backend (StateM σ)) (read : String → Content → Run (StateM σ) Value) (s s' : σ) :
    Deed → Prop
  | glob {pattern : String} {args : Args} {answer : Except Failure (List String)}
      (h : (b.glob pattern args).Ends s answer s') : Done b read s s' (.glob pattern args answer)
  | openOne {path : String} {args : Args} {answer : Except Failure Opened}
      (h : (b.openOne path args).Ends s answer s') : Done b read s s' (.openOne path args answer)
  | openMatching {pattern : String} {args : Args} {answer : Except Failure (List Opened)}
      (h : (b.openMatching pattern args).Ends s answer s') :
      Done b read s s' (.openMatching pattern args answer)
  | parse {path : String} {content : Content} {answer : Except Failure Value}
      (h : (read path content).Ends s answer s') : Done b read s s' (.parse path content answer)

/-- Deeds are done one after the other, and nothing else is. -/
inductive Row (b : Backend (StateM σ)) (read : String → Content → Run (StateM σ) Value) :
    σ → List Deed → σ → Prop
  | nil {s : σ} : Row b read s [] s
  | cons {s s₁ s' : σ} {deed : Deed} {deeds : List Deed} (h : deed.Done b read s s₁)
      (rest : Row b read s₁ deeds s') : Row b read s (deed :: deeds) s'

/-! ### In what order -/

/-- What was read of a file has the next one follow: any value, and with flattening a sequence only. -/
def GoesOn (flatten : Bool) : Except Failure Value → Prop
  | .error _ => False
  | .ok v => flatten = true → ∃ items, v = .sequence items

/-- Files that are open are read one after the other, up to the first that cannot be. -/
inductive Reads (flatten : Bool) : List Opened → List Deed → Prop
  | done : Reads flatten [] []
  | stopped {file : Opened} {rest : List Opened} {answer : Except Failure Value}
      (h : ¬ GoesOn flatten answer) :
      Reads flatten (file :: rest) [.parse file.path file.content answer]
  | next {file : Opened} {rest : List Opened} {answer : Except Failure Value} {deeds : List Deed}
      (h : GoesOn flatten answer) (more : Reads flatten rest deeds) :
      Reads flatten (file :: rest) (.parse file.path file.content answer :: deeds)

/-- Listed files are opened and read one after the other. A file is opened once the one before it was
opened and read, and with flattening was a sequence; after a failure nothing is done. Last comes the failure of an
opening, if one failed. -/
inductive InTurn (args : Args) (flatten : Bool) : List String → List Deed → Option Failure → Prop
  | done : InTurn args flatten [] [] none
  | notOpened {path : String} {rest : List String} (e : Failure) :
      InTurn args flatten (path :: rest) [.openOne path args (.error e)] (some e)
  | stopped {path : String} {rest : List String} (file : Opened) {answer : Except Failure Value}
      (h : ¬ GoesOn flatten answer) :
      InTurn args flatten (path :: rest)
        [.openOne path args (.ok file), .parse file.path file.content answer] none
  | next {path : String} {rest : List String} {deeds : List Deed} {failed : Option Failure}
      (file : Opened) {answer : Except Failure Value} (h : GoesOn flatten answer)
      (more : InTurn args flatten rest deeds failed) :
      InTurn args flatten (path :: rest)
        (.openOne path args (.ok file) :: .parse file.path file.content answer :: deeds) failed

/-- What is done to find the target of a directive at `path`, and the failure of a call for it. -/
inductive Sought (d : Directive) (path : String) : Route → List Deed → Option Failure → Prop
  | notOpened {route : Route} (hroute : route.isMulti = false) (e : Failure) :
      Sought d path route [.openOne path d.args (.error e)] (some e)
  | opened {route : Route} (hroute : route.isMulti = false) (file : Opened)
      (answer : Except Failure Value) :
      Sought d path route [.openOne path d.args (.ok file), .parse file.path file.content answer] none
  | notMatched (e : Failure) : Sought d path .remoteGlob [.openMatching path d.args (.error e)] (some e)
  | matched {files : List Opened} {deeds : List Deed} (h : Reads d.flatten files deeds) :
      Sought d path .remoteGlob (.openMatching path d.args (.ok files) :: deeds) none
  | rejected {f : Fault} (hplan : Plan.ofParams d.positional d.named = .error f) :
      Sought d path .localGlob [] none
  | notListed {plan : Plan} (hplan : Plan.ofParams d.positional d.named = .ok plan) (e : Failure) :
      Sought d path .localGlob [.glob path plan.listing.args (.error e)] (some e)
  | listed {plan : Plan} {paths : List String} {deeds : List Deed} {failed : Option Failure}
      (hplan : Plan.ofParams d.positional d.named = .ok plan)
      (h : InTurn plan.opening.args d.flatten paths deeds failed) :
      Sought d path .localGlob (.glob path plan.listing.args (.ok paths) :: deeds) failed

/-- What is done for the default. A text is read where a call found the target missing, and nothing
is done anywhere else. -/
inductive Fallback (d : Directive) (path : String) : Option Failure → List Deed → Prop
  | text {missing text : String} (h : d.default = some (.string text)) (answer : Except Failure Value) :
      Fallback d path (some (.fault (.notFound missing))) [.parse path (.ofText text) answer]
  | nothing {failed : Option Failure}
      (h : ∀ missing text, failed = some (.fault (.notFound missing)) → d.default ≠ some (.string text)) :
      Fallback d path failed []

/-- What is done for a directive whose target is found at `path`. -/
def Orderly (d : Directive) (path : String) (route : Route) (deeds : List Deed) : Prop :=
  ∃ sought failed rest, Sought d path route sought failed ∧ Fallback d path failed rest ∧
    deeds = sought ++ rest

/-! ### There is one orderly row at most -/

section Unique
variable {b : Backend (StateM σ)} {read : String → Content → Run (StateM σ) Value} {s s₁ s₂ s' s'' : σ}
  {deed deed' : Deed} {deeds deeds' more : List Deed} {d : Directive} {path : String} {route : Route}
  {flatten : Bool} {failed failed' : Option Failure}

theorem Row.one (h : deed.Done b read s s') : Row b read s [deed] s' := .cons h .nil

theorem Row.append (h : Row b read s deeds s₁) (hmore : Row b read s₁ more s') :
    Row b read s (deeds ++ more) s' := by
  induction h with
  | nil => exact hmore
  | cons hd rest ih => exact .cons hd (ih hmore)

theorem Row.of_append (h : Row b read s (deeds ++ more) s') :
    ∃ s₁, Row b read s deeds s₁ ∧ Row b read s₁ more s' := by
  induction deeds generalizing s with
  | nil => exact ⟨s, .nil, h⟩
  | cons deed deeds ih =>
    cases h with
    | cons hd rest =>
      obtain ⟨s₁, hdeeds, hmore⟩ := ih rest
      exact ⟨s₁, .cons hd hdeeds, hmore⟩

def ask : Deed → Call ⊕ (String × Content)
  | glob pattern args _ => .inl (.glob pattern args)
  | openOne path args _ => .inl (.openOne path args)
  | openMatching pattern args _ => .inl (.openMatching pattern args)
  | parse path content _ => .inr (path, content)

theorem Done.unique (h : deed.Done b read s s₁) (h' : deed'.Done b read s s₂)
    (hask : deed.ask = deed'.ask) : deed = deed' ∧ s₁ = s₂ := by
  cases h with
  | glob h | openOne h | openMatching h | parse h =>
    cases h' <;> cases hask
    rename_i h'
    obtain ⟨rfl, rfl⟩ := Run.Ends.unique h h'
    exact ⟨rfl, rfl⟩

/-- Two rows that start by asking for the same go on from one state. -/
theorem Row.cons_unique (h : Row b read s (deed :: deeds) s') (h' : Row b read s (deed' :: deeds') s'')
    (hask : deed.ask = deed'.ask) :
    deed = deed' ∧ ∃ s₁, Row b read s₁ deeds s' ∧ Row b read s₁ deeds' s'' := by
  cases h with
  | cons hd rest =>
    cases h' with
    | cons hd' rest' =>
      obtain ⟨rfl, rfl⟩ := hd.unique hd' hask
      exact ⟨rfl, _, rest, rest'⟩

/-- The same for two rows that start by opening one path, and read what they have opened. -/
theorem Row.opened_unique {args : Args} {file file' : Opened} {answer answer' : Except Failure Value}
    (h : Row b read s (.openOne path args (.ok file) :: .parse file.path file.content answer :: deeds) s')
    (h' : Row b read s (.openOne path args (.ok file') :: .parse file'.path file'.content answer' :: deeds') s'') :
    file = file' ∧ answer = answer' ∧ ∃ s₁, Row b read s₁ deeds s' ∧ Row b read s₁ deeds' s'' := by
  obtain ⟨hfile, s₁, hread, hread'⟩ := h.cons_unique h' rfl
  cases hfile
  obtain ⟨hanswer, hrest⟩ := hread.cons_unique hread' rfl
  cases hanswer
  exact ⟨rfl, rfl, hrest⟩

theorem Row.unique (h : Row b read s deeds s') (h' : Row b read s deeds s'') : s' = s'' := by
  induction h with
  | nil =>
    cases h'
    rfl
  | cons hd rest ih =>
    cases h' with
    | cons hd' rest' =>
      obtain ⟨-, rfl⟩ := hd.unique hd' rfl
      exact ih rest'

theorem Reads.unique {files : List Opened} (h : Reads flatten files deeds)
    (h' : Reads flatten files deeds') (hrow : Row b read s deeds s') (hrow' : Row b read s deeds' s'') :
    deeds = deeds' := by
  induction h generalizing s deeds' with
  | done =>
    cases h'
    rfl
  | stopped hstop =>
    cases h' with
    | stopped _ => rw [(hrow.cons_unique hrow' rfl).1]
    | next hgoes _ =>
      cases (hrow.cons_unique hrow' rfl).1
      exact absurd hgoes hstop
  | next hgoes _ ih =>
    cases h' with
    | stopped hstop =>
      cases (hrow.cons_unique hrow' rfl).1
      exact absurd hgoes hstop
    | next _ hmore =>
      obtain ⟨hdeed, s₁, hrest, hrest'⟩ := hrow.cons_unique hrow' rfl
      rw [hdeed, ih hmore hrest hrest']

theorem InTurn.unique {args : Args} {paths : List String} (h : InTurn args flatten paths deeds failed)
    (h' : InTurn args flatten paths deeds' failed') (hrow : Row b read s deeds s')
    (hrow' : Row b read s deeds' s'') : deeds = deeds' ∧ failed = failed' := by
  induction h generalizing s deeds' with
  | done =>
    cases h'
    exact ⟨rfl, rfl⟩
  | notOpened e =>
    cases h' with
    | notOpened _ =>
      cases (hrow.cons_unique hrow' rfl).1
      exact ⟨rfl, rfl⟩
    | stopped _ _ => cases (hrow.cons_unique hrow' rfl).1
    | next _ _ _ => cases (hrow.cons_unique hrow' rfl).1
  | stopped file hstop =>
    cases h' with
    | notOpened _ => cases (hrow.cons_unique hrow' rfl).1
    | stopped _ _ =>
      obtain ⟨rfl, rfl, -⟩ := hrow.opened_unique hrow'
      exact ⟨rfl, rfl⟩
    | next _ hgoes _ =>
      obtain ⟨-, rfl, -⟩ := hrow.opened_unique hrow'
      exact absurd hgoes hstop
  | next file hgoes _ ih =>
    cases h' with
    | notOpened _ => cases (hrow.cons_unique hrow' rfl).1
    | stopped _ hstop =>
      obtain ⟨-, rfl, -⟩ := hrow.opened_unique hrow'
      exact absurd hgoes hstop
    | next _ _ hmore =>
      obtain ⟨rfl, rfl, s₁, hrest, hrest'⟩ := hrow.opened_unique hrow'
      obtain ⟨rfl, rfl⟩ := ih hmore hrest hrest'
      exact ⟨rfl, rfl⟩

theorem Sought.unique (h : Sought d path route deeds failed) (h' : Sought d path route deeds' failed')
    (hrow : Row b read s deeds s') (hrow' : Row b read s deeds' s'') :
    deeds = deeds' ∧ failed = failed' := by
  cases h with
  | notOpened hroute e =>
    cases h' with
    | notOpened _ _ =>
      cases (hrow.cons_unique hrow' rfl).1
      exact ⟨rfl, rfl⟩
    | opened _ _ _ => cases (hrow.cons_unique hrow' rfl).1
    | _ => cases hroute
  | opened hroute file answer =>
    cases h' with
    | notOpened _ _ => cases (hrow.cons_unique hrow' rfl).1
    | opened _ _ _ =>
      obtain ⟨rfl, rfl, -⟩ := hrow.opened_unique hrow'
      exact ⟨rfl, rfl⟩
    | _ => cases hroute
  | notMatched e =>
    cases h' with
    | notOpened hroute _ | opened hroute _ _ => cases hroute
    | notMatched _ =>
      cases (hrow.cons_unique hrow' rfl).1
      exact ⟨rfl, rfl⟩
    | matched _ => cases (hrow.cons_unique hrow' rfl).1
  | matched hreads =>
    cases h' with
    | notOpened hroute _ | opened hroute _ _ => cases hroute
    | notMatched _ => cases (hrow.cons_unique hrow' rfl).1
    | matched hreads' =>
      obtain ⟨hfiles, s₁, hrest, hrest'⟩ := hrow.cons_unique hrow' rfl
      cases hfiles
      rw [hreads.unique hreads' hrest hrest']
      exact ⟨rfl, rfl⟩
  | rejected hplan =>
    cases h' with
    | notOpened hroute _ | opened hroute _ _ => cases hroute
    | rejected _ => exact ⟨rfl, rfl⟩
    | notListed hplan' _ | listed hplan' _ => cases hplan.symm.trans hplan'
  | notListed hplan e =>
    cases h' with
    | notOpened hroute _ | opened hroute _ _ => cases hroute
    | rejected hplan' => cases hplan.symm.trans hplan'
    | notListed hplan' _ =>
      cases hplan.symm.trans hplan'
      cases (hrow.cons_unique hrow' rfl).1
      exact ⟨rfl, rfl⟩
    | listed hplan' _ =>
      cases hplan.symm.trans hplan'
      cases (hrow.cons_unique hrow' rfl).1
  | listed hplan hturn =>
    cases h' with
    | notOpened hroute _ | opened hroute _ _ => cases hroute
    | rejected hplan' => cases hplan.symm.trans hplan'
    | notListed hplan' _ =>
      cases hplan.symm.trans hplan'
      cases (hrow.cons_unique hrow' rfl).1
    | listed hplan' hturn' =>
      cases hplan.symm.trans hplan'
      obtain ⟨hpaths, s₁, hrest, hrest'⟩ := hrow.cons_unique hrow' rfl
      cases hpaths
      obtain ⟨rfl, rfl⟩ := hturn.unique hturn' hrest hrest'
      exact ⟨rfl, rfl⟩

theorem Fallback.unique (h : Fallback d path failed deeds) (h' : Fallback d path failed deeds')
    (hrow : Row b read s deeds s') (hrow' : Row b read s deeds' s'') : deeds = deeds' := by
  cases h with
  | text hd answer =>
    cases h' with
    | text hd' _ =>
      cases hd.symm.trans hd'
      rw [(hrow.cons_unique hrow' rfl).1]
    | nothing hnot => exact absurd hd (hnot _ _ rfl)
  | nothing hnot =>
    cases h' with
    | text hd _ => exact absurd hd (hnot _ _ rfl)
    | nothing _ => rfl

/-- Nothing else that is done from the same state is orderly. -/
theorem Orderly.unique (h : Orderly d path route deeds) (h' : Orderly d path route deeds')
    (hrow : Row b read s deeds s') (hrow' : Row b read s deeds' s'') : deeds = deeds' ∧ s' = s'' := by
  obtain ⟨sought, failed, rest, hsought, hrest, rfl⟩ := h
  obtain ⟨sought', failed', rest', hsought', hrest', rfl⟩ := h'
  obtain ⟨s₁, hfirst, hlast⟩ := hrow.of_append
  obtain ⟨s₂, hfirst', hlast'⟩ := hrow'.of_append
  obtain ⟨rfl, rfl⟩ := hsought.unique hsought' hfirst hfirst'
  obtain rfl := hfirst.unique hfirst'
  obtain rfl := hrest.unique hrest' hlast hlast'
  exact ⟨rfl, hlast.unique hlast'⟩

end Unique
end Deed

namespace Includer

open Deed

variable {I : Includer (StateM σ)} {b : Backend (StateM σ)}
  {read : String → Content → Run (StateM σ) Value}

theorem exists_ends_pieces (flatten : Bool) {file : Opened} {answer : Except Failure Value} {s s' : σ}
    (hread : (read file.path file.content).Ends s answer s') :
    ∃ x, (do pieces flatten file.path (← read file.path file.content) : Run (StateM σ) (List Value)).Ends s
      x s' ∧ (GoesOn flatten answer ↔ ∃ items, x = .ok items) := by
  rcases answer with e | v
  · exact ⟨_, hread.bind_error, by simp [GoesOn]⟩
  · cases flatten with
    | false => exact ⟨_, hread.bind (Run.Ends.pure _ _), by simp [GoesOn]⟩
    | true =>
      cases v with
      | sequence items => exact ⟨_, hread.bind (Run.Ends.pure _ _), by simp [GoesOn]⟩
      | _ => exact ⟨_, hread.bind (Run.Ends.throw _ _), by simp [GoesOn]⟩

/-- The run ends with a target that is missing exactly where the call for it failed so. -/
def EndsBy (r : Seek (StateM σ) α) (s : σ) (x : Except Failure (Except Missing α)) (s' : σ)
    (failed : Option Failure) : Prop :=
  r.run.Ends s x s' ∧ ∀ q : Missing, x = .ok (.error q) ↔ failed = some (.fault (.notFound q.path))

variable {β : Type} {k : Seek (StateM σ) α} {r : Run (StateM σ) α} {f : α → Seek (StateM σ) β} {s s₁ s' : σ}
  {failed : Option Failure}

theorem EndsBy.bind {a : α} {x : Except Failure (Except Missing β)} (hk : k.run.Ends s (.ok (.ok a)) s₁)
    (hf : EndsBy (f a) s₁ x s' failed) : EndsBy (k >>= f) s x s' failed :=
  ⟨Seek.ends_bind hk hf.1, hf.2⟩

theorem EndsBy.map {x : Except Failure (Except Missing α)} (g : α → β) (h : EndsBy k s x s' failed) :
    ∃ z, EndsBy (do return g (← k)) s z s' failed := by
  refine ⟨_, Seek.ends_map g h.1, fun q => ?_⟩
  rw [← h.2]
  rcases x with e | q | a <;> simp [Except.map]

theorem EndsBy.own_error {e : Failure} (hr : r.Ends s (.error e) s') :
    ∃ z, EndsBy (Seek.own r >>= f) s z s' (some e) := by
  obtain ⟨z, hz, hmissing⟩ := Seek.ends_own_error hr
  exact ⟨z, hz, by simpa using hmissing⟩

theorem EndsBy.lift_error {e : Failure} (hr : r.Ends s (.error e) s') :
    EndsBy ((liftM r : Seek (StateM σ) α) >>= f) s (.error e) s' none :=
  ⟨Seek.ends_lift_error hr, by simp⟩

/-- Listed files are opened in turn, however the run ends. -/
theorem gather_inTurn (b : Backend (StateM σ)) (read : String → Content → Run (StateM σ) Value)
    (flatten : Bool) (args : Args) (paths : List String) (s : σ) :
    ∃ x s' deeds failed,
      EndsBy (gather flatten read (fun p => Seek.own (b.openOne p args)) paths) s x s' failed ∧
      Row b read s deeds s' ∧ InTurn args flatten paths deeds failed := by
  induction paths generalizing s with
  | nil => exact ⟨_, s, [], none, ⟨Run.Ends.pure _ _, by simp⟩, .nil, .done⟩
  | cons path rest ih =>
    rw [gather]
    obtain ⟨answer, s₁, hopen⟩ := Run.exists_ends (b.openOne path args) s
    rcases answer with e | file
    · obtain ⟨z, hz⟩ := EndsBy.own_error hopen
      exact ⟨z, s₁, _, _, hz, .one (.openOne hopen), .notOpened e⟩
    · have hown := Seek.ends_own hopen
      obtain ⟨answer, s₂, hread⟩ := Run.exists_ends (read file.path file.content) s₁
      have hrow : Row b read s [.openOne path args (.ok file),
          .parse file.path file.content answer] s₂ := .cons (.openOne hopen) (.one (.parse hread))
      obtain ⟨pieces, hpieces, hgoes⟩ := exists_ends_pieces flatten hread
      rcases pieces with e | items
      · exact ⟨_, s₂, _, none, .bind hown (.lift_error hpieces), hrow, .stopped file (by simp [hgoes])⟩
      · obtain ⟨x, s', deeds, failed, hx, hrest, hturn⟩ := ih s₂
        obtain ⟨z, hz⟩ := hx.map (items ++ ·)
        exact ⟨z, s', _, failed, .bind hown (.bind (Seek.ends_lift hpieces) hz), hrow.append hrest,
          .next file (hgoes.mpr ⟨items, rfl⟩) hturn⟩

theorem gather_reads (b : Backend (StateM σ)) (read : String → Content → Run (StateM σ) Value)
    (flatten : Bool) (files : List Opened) (s : σ) :
    ∃ x s' deeds, EndsBy (gather flatten read pure files) s x s' none ∧ Row b read s deeds s' ∧
      Reads flatten files deeds := by
  induction files generalizing s with
  | nil => exact ⟨_, s, [], ⟨Run.Ends.pure _ _, by simp⟩, .nil, .done⟩
  | cons file rest ih =>
    rw [gather, pure_bind]
    obtain ⟨answer, s₁, hread⟩ := Run.exists_ends (read file.path file.content) s
    have hrow : Row b read s [.parse file.path file.content answer] s₁ := .one (.parse hread)
    obtain ⟨pieces, hpieces, hgoes⟩ := exists_ends_pieces flatten hread
    rcases pieces with e | items
    · exact ⟨_, s₁, _, .lift_error hpieces, hrow, .stopped (by simp [hgoes])⟩
    · obtain ⟨x, s', deeds, hx, hrest, hreads⟩ := ih s₁
      obtain ⟨z, hz⟩ := hx.map (items ++ ·)
      exact ⟨z, s', _, .bind (Seek.ends_lift hpieces) hz, hrow.append hrest,
        .next (hgoes.mpr ⟨items, rfl⟩) hreads⟩

theorem openOne_sought (b : Backend (StateM σ)) (read : String → Content → Run (StateM σ) Value)
    (d : Directive) {route : Route} (hroute : route.isMulti = false) (path : String) (s : σ) :
    ∃ x s' deeds failed, EndsBy (do
      let file ← Seek.own (b.openOne path d.args)
      (read file.path file.content : Run (StateM σ) Value)) s x s' failed ∧
      Row b read s deeds s' ∧ Sought d path route deeds failed := by
  obtain ⟨answer, s₁, hopen⟩ := Run.exists_ends (b.openOne path d.args) s
  rcases answer with e | file
  · obtain ⟨z, hz⟩ := EndsBy.own_error hopen
    exact ⟨z, s₁, _, _, hz, .one (.openOne hopen), .notOpened hroute e⟩
  · obtain ⟨answer, s', hread⟩ := Run.exists_ends (read file.path file.content) s₁
    obtain ⟨z, hz⟩ : ∃ z, EndsBy (liftM (read file.path file.content)) s₁ z s' none := by
      unfold EndsBy
      rw [Seek.run_lift]
      rcases answer with e | v
      · exact ⟨_, hread.bind_error, by simp⟩
      · exact ⟨_, hread.bind (Run.Ends.pure _ _), by simp⟩
    exact ⟨z, s', _, none, .bind (Seek.ends_own hopen) hz, .cons (.openOne hopen) (.one (.parse hread)),
      .opened hroute file answer⟩

/-- Whatever the route, the target is looked for in good order. -/
theorem found_sought (I : Includer (StateM σ)) (read : String → Content → Run (StateM σ) Value)
    (d : Directive) (route : Route) (path : String) (s : σ) :
    ∃ x s' deeds failed, EndsBy (I.found read d route path) s x s' failed ∧
      Row I.backend read s deeds s' ∧ Sought d path route deeds failed := by
  unfold found
  cases route with
  | remoteGlob =>
    obtain ⟨answer, s₁, hopen⟩ := Run.exists_ends (I.backend.openMatching path d.args) s
    have hrow : Row I.backend read s [.openMatching path d.args answer] s₁ := .one (.openMatching hopen)
    rcases answer with e | files
    · obtain ⟨z, hz⟩ := EndsBy.own_error hopen
      exact ⟨z, s₁, _, _, hz, hrow, .notMatched e⟩
    · obtain ⟨x, s', deeds, hx, hrest, hreads⟩ := gather_reads I.backend read d.flatten files s₁
      obtain ⟨z, hz⟩ := hx.map Value.sequence
      exact ⟨z, s', _, none, .bind (Seek.ends_own hopen) hz, hrow.append hrest, .matched hreads⟩
  | localGlob =>
    cases hplan : Plan.ofParams d.positional d.named with
    | error f =>
      exact ⟨_, s, [], none, .lift_error (Run.Ends.throw _ _), .nil, .rejected hplan⟩
    | ok plan =>
      have hlift : (liftM (Run.ofExcept (.ok plan) : Run (StateM σ) Plan) :
          Seek (StateM σ) Plan).run.Ends s (.ok (.ok plan)) s := Seek.ends_lift (Run.Ends.pure _ _)
      obtain ⟨answer, s₁, hglob⟩ := Run.exists_ends (I.backend.glob path plan.listing.args) s
      have hrow : Row I.backend read s [.glob path plan.listing.args answer] s₁ := .one (.glob hglob)
      rcases answer with e | paths
      · obtain ⟨z, hz⟩ := EndsBy.own_error hglob
        exact ⟨z, s₁, _, _, .bind hlift hz, hrow, .notListed hplan e⟩
      · obtain ⟨x, s', deeds, failed, hx, hrest, hturn⟩ :=
          gather_inTurn I.backend read d.flatten plan.opening.args paths s₁
        obtain ⟨z, hz⟩ := hx.map Value.sequence
        exact ⟨z, s', _, failed, .bind hlift (.bind (Seek.ends_own hglob) hz), hrow.append hrest,
          .listed hplan hturn⟩
  | remoteSingle => exact openOne_sought I.backend read d rfl path s
  | localSingle => exact openOne_sought I.backend read d rfl path s

/-- In place of a target that is missing, a default that is a text is read. -/
theorem default_fallback (b : Backend (StateM σ)) (read : String → Content → Run (StateM σ) Value)
    (d : Directive) (path : String) (q : Missing) (s : σ) :
    ∃ x s' deeds, (match d.default with
        | some v => defaultValue read path v
        | none => Run.raise (.notFound q.path) : Run (StateM σ) Value).Ends s x s' ∧
      Row b read s deeds s' ∧ Fallback d path (some (.fault (.notFound q.path))) deeds := by
  cases hd : d.default with
  | none => exact ⟨_, s, [], Run.Ends.throw _ _, .nil, .nothing (by simp [hd])⟩
  | some v =>
    cases v with
    | string text =>
      obtain ⟨answer, s₁, hread⟩ := Run.exists_ends (read path (.ofText text)) s
      have hrow : Row b read s [.parse path (.ofText text) answer] s₁ := .one (.parse hread)
      have hfallback : Fallback d path (some (.fault (.notFound q.path)))
          [.parse path (.ofText text) answer] := .text hd answer
      rcases answer with e | w
      · cases e with
        | fault f => exact ⟨_, s₁, _, hread.orElseOn_fault (Run.Ends.pure _ _), hrow, hfallback⟩
        | nesting => exact ⟨_, s₁, _, hread.orElseOn_cut (by simp), hrow, hfallback⟩
        | timeoutOverflow => exact ⟨_, s₁, _, hread.orElseOn_cut (by simp), hrow, hfallback⟩
      · exact ⟨_, s₁, _, hread.orElseOn_ok, hrow, hfallback⟩
    | _ => exact ⟨_, s, [], Run.Ends.pure _ _, .nil, .nothing (by simp [hd])⟩

theorem ends_currentBase {base : Option String} {s₀ : σ} (hbase : (I.currentBase.run s).run = (base, s₀)) :
    (liftM I.currentBase : Run (StateM σ) (Option String)).Ends s (.ok base) s₀ := by
  have hask := Run.Ends.lift I.currentBase s
  rwa [hbase] at hask

/-- All that a directive does itself, from the state that asking for the base directory leaves. -/
theorem resolveWith_orderly (read : String → Content → Run (StateM σ) Value) (d : Directive) (s : σ) :
    ∃ base s₀ x s' deeds, (I.currentBase.run s).run = (base, s₀) ∧ (I.resolveWith read d).Ends s x s' ∧
      Row I.backend read s₀ deeds s' ∧
      Orderly d (Target.resolve d.target base).path (Target.resolve d.target base).route deeds := by
  rcases hbase : (I.currentBase.run s).run with ⟨base, s₀⟩
  have hask := ends_currentBase hbase
  obtain ⟨x, s₁, deeds, failed, ⟨hx, hmissing⟩, hrow, hsought⟩ := found_sought I read d
    (Target.resolve d.target base).route (Target.resolve d.target base).path s₀
  -- nothing is done for the default, unless the target is missing
  have hnothing (hne : ∀ q, x ≠ .ok (.error q)) :
      Orderly d (Target.resolve d.target base).path (Target.resolve d.target base).route deeds :=
    ⟨deeds, failed, [], hsought,
      .nothing fun missing _ hfailed => absurd ((hmissing ⟨missing⟩).mpr hfailed) (hne _),
      (List.append_nil deeds).symm⟩
  refine ⟨base, s₀, ?_⟩
  rcases x with e | q | v
  · exact ⟨_, s₁, deeds, rfl, hask.bind hx.bind_error, hrow, hnothing (by simp)⟩
  · obtain ⟨z, s', more, hz, hmore, hfallback⟩ :=
      default_fallback I.backend read d (Target.resolve d.target base).path q s₁
    rw [← (hmissing q).mp rfl] at hfallback
    exact ⟨z, s', deeds ++ more, rfl, hask.bind (hx.bind hz), hrow.append hmore,
      deeds, failed, more, hsought, hfallback, rfl⟩
  · exact ⟨_, s₁, deeds, rfl, hask.bind (hx.bind (Run.Ends.pure v s₁)), hrow, hnothing (by simp)⟩

end Includer

/-! ## The record -/

section Record
open Deed
variable {files : List (String × String)} {read : String → Content → Run (StateM (List Call)) Value}
  {log log' : List Call}

theorem ends_noted {c : Call} {answer : Except Fault α} {x : Except Failure α}
    (h : (do ExceptT.lift (modify (· ++ [c])); Run.ofExcept answer :
      Run (StateM (List Call)) α).Ends log x log') : log' = log ++ [c] := by
  cases answer with
  | error f =>
    cases h
    rfl
  | ok a =>
    cases h
    rfl

/-- Each call is at the end of the record as soon as it is made. -/
theorem Memory.noting_done {deed : Deed} {c : Call}
    (h : deed.Done (Memory.noting files).backend read log log') (hc : deed.call? = some c) :
    log' = log ++ [c] := by
  cases h with
  | glob h =>
    cases hc
    exact ends_noted h
  | openOne h =>
    cases hc
    exact ends_noted h
  | openMatching h =>
    cases hc
    exact ends_noted h
  | parse h => cases hc

end Record

namespace Includer

open Deed

/-- **Each directive calls the backend in good order.** A single target is opened once, a remote
pattern is opened at once, and the files of a listing are opened in turn, each after the one before it
was opened and read. What is opened is read, and nothing else is but a default, where the target is
missing. What else is on the record was asked for by what was read. -/
theorem resolve_orderly {I : Includer (StateM (List Call))} {files : List (String × String)}
    (hI : I.backend = (Memory.noting files).backend) {left : Nat} (hn : I.nesting = left + 1)
    (d : Directive) (log : List Call) :
    ∃ base log₀ x log' deeds, (I.currentBase.run log).run = (base, log₀) ∧ (I.resolve d).Ends log x log' ∧
      Row I.backend (I.parseContentWith (I.resolveAt left)) log₀ deeds log' ∧
      Orderly d (Target.resolve d.target base).path (Target.resolve d.target base).route deeds ∧
      (∀ others log'', Row I.backend (I.parseContentWith (I.resolveAt left)) log₀ others log'' →
        Orderly d (Target.resolve d.target base).path (Target.resolve d.target base).route others →
        others = deeds ∧ log'' = log') ∧
      ∀ deed ∈ deeds, ∀ c, deed.call? = some c → ∀ before after,
        deed.Done I.backend (I.parseContentWith (I.resolveAt left)) before after →
        after = before ++ [c] := by
  obtain ⟨base, log₀, x, log', deeds, hbase, hx, hrow, horderly⟩ :=
    resolveWith_orderly (I := I) (I.parseContentWith (I.resolveAt left)) d log
  refine ⟨base, log₀, x, log', deeds, hbase, ?_, hrow, horderly,
    fun others log'' hothers h => h.unique horderly hothers hrow, fun deed _ c hc before after h => ?_⟩
  · rw [resolve, hn]
    exact hx
  · rw [hI] at h
    exact Memory.noting_done h hc

def allFlattened : Directive where
  target := "*"
  flatten := true
  target_shows := rfl

/-- The first of two files is no sequence, so that the second is never opened. -/
def stopsAtFirst : List Deed :=
  [.glob "*" {} (.ok ["a", "b"]), .openOne "a" {} (.ok ⟨"a", .ofText ""⟩),
    .parse "a" (.ofText "") (.ok .null)]

theorem resolve_orderly_listing :
    (Memory.noting [("a", ""), ("b", "")]).nesting = 1999 + 1 ∧
      ∀ deeds log', Row (Memory.noting [("a", ""), ("b", "")]).backend
          ((Memory.noting [("a", ""), ("b", "")]).parseContentWith
            ((Memory.noting [("a", ""), ("b", "")]).resolveAt 1999)) [] deeds log' →
        Orderly allFlattened "*" .localGlob deeds →
        deeds = stopsAtFirst ∧ log' = [.glob "*" {}, .openOne "a" {}] := by
  have hn : (Memory.noting [("a", ""), ("b", "")]).nesting = 1999 + 1 := rfl
  obtain ⟨base, log₀, x, log', deeds, hbase, -, -, -, hunique, -⟩ := resolve_orderly rfl hn allFlattened []
  obtain ⟨rfl, rfl⟩ : (none : Option String) = base ∧ ([] : List Call) = log₀ := Prod.mk.inj hbase
  have hlisted : ((Memory.noting [("a", ""), ("b", "")]).backend.glob "*" {}).Ends [] (.ok ["a", "b"])
      [.glob "*" {}] := Memory.noting_glob (toOption_eq_some_iff.mp (by decide +kernel)) {} []
  have hopened : ((Memory.noting [("a", ""), ("b", "")]).backend.openOne "a" {}).Ends [.glob "*" {}]
      (.ok ⟨"a", .ofText ""⟩) [.glob "*" {}, .openOne "a" {}] := rfl
  have hread : ((Memory.noting [("a", ""), ("b", "")]).parseContentWith
      ((Memory.noting [("a", ""), ("b", "")]).resolveAt 1999) "a" (.ofText "")).Ends
      [.glob "*" {}, .openOne "a" {}] (.ok .null) [.glob "*" {}, .openOne "a" {}] := rfl
  have hplan : Plan.ofParams allFlattened.positional allFlattened.named = .ok {} := rfl
  have horderly : Orderly allFlattened "*" .localGlob stopsAtFirst := by
    refine ⟨stopsAtFirst, none, [], .listed hplan ?_, .nothing (by simp), rfl⟩
    exact .stopped _ (by simp [GoesOn, allFlattened])
  obtain ⟨rfl, rfl⟩ :=
    hunique _ _ (.cons (.glob hlisted) (.cons (.openOne hopened) (.one (.parse hread)))) horderly
  exact ⟨hn, hunique⟩

end Includer
end Transclusion
