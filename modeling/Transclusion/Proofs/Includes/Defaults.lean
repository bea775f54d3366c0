import Transclusion.Includer.Resolve
import Transclusion.Proofs.Runs

/-!
# What a default stands for

A backend over `Id` gives the same answer to the same call, whatever was asked before.

* `Includer.Lacks` : a call that is made for the directive itself finds nothing at all;
* `Includer.found_run_eq_missing_iff` : in no other case a target is missing;
* `Includer.resolve_default` : a default counts exactly then.
-/

namespace Transclusion

/-! ## Missing targets -/

namespace Includer

variable {I : Includer Id} {parse : String → Content → Run Id Value} {d : Directive}

/-- One of the listed files is not there when its turn comes, after all before it were opened, parsed
and taken in. -/
inductive LacksListed (I : Includer Id) (parse : String → Content → Run Id Value) (flatten : Bool)
    (args : Args) : List String → String → Prop
  | here {p q : String} {rest : List String} (hopen : I.backend.openOne p args = Run.raise (.notFound q)) :
      LacksListed I parse flatten args (p :: rest) q
  | later {p q : String} {rest : List String} {file : Opened} {v : Value} {items : List Value}
      (hopen : I.backend.openOne p args = pure file) (hparse : parse file.path file.content = pure v)
      (hitems : (pieces flatten file.path v : Run Id (List Value)) = pure items)
      (h : LacksListed I parse flatten args rest q) : LacksListed I parse flatten args (p :: rest) q

/-- A call of the backend that is made for the directive itself answers that `q` is not there. What
`parse` meets with inside of a file that is there is no such call. -/
inductive Lacks (I : Includer Id) (parse : String → Content → Run Id Value) (d : Directive)
    (path : String) : Route → String → Prop
  | single {route : Route} {q : String} (hroute : route.isMulti = false)
      (hopen : I.backend.openOne path d.args = Run.raise (.notFound q)) : Lacks I parse d path route q
  | matching {q : String} (hopen : I.backend.openMatching path d.args = Run.raise (.notFound q)) :
      Lacks I parse d path .remoteGlob q
  | listing {q : String} {plan : Plan} (hplan : Plan.ofParams d.positional d.named = .ok plan)
      (hglob : I.backend.glob path plan.listing.args = Run.raise (.notFound q)) :
      Lacks I parse d path .localGlob q
  | listed {q : String} {plan : Plan} {paths : List String}
      (hplan : Plan.ofParams d.positional d.named = .ok plan)
      (hglob : I.backend.glob path plan.listing.args = pure paths)
      (h : LacksListed I parse d.flatten plan.opening.args paths q) : Lacks I parse d path .localGlob q

section Listed
variable {flatten : Bool} {args : Args} {paths : List String}

theorem LacksListed.gather_run {q : String} (h : I.LacksListed parse flatten args paths q) :
    (gather flatten parse (fun p => Seek.own (I.backend.openOne p args)) paths).run =
      pure (.error ⟨q⟩) := by
  induction h with
  | here hopen =>
    rw [gather]
    exact Seek.bind_run_eq_missing_iff.mpr (.inl (Seek.own_run_eq_missing_iff.mpr hopen))
  | later hopen hparse hitems h ih =>
    rw [gather]
    refine Seek.bind_run_eq_missing_iff.mpr (.inr ⟨_, Seek.own_run_eq_ok_iff.mpr hopen, ?_⟩)
    have hpieces := Seek.lift_run_eq_ok_iff.mpr (Run.bind_eq_pure_iff.mpr ⟨_, hparse, hitems⟩)
    refine Seek.bind_run_eq_missing_iff.mpr (.inr ⟨_, hpieces, ?_⟩)
    exact Seek.bind_run_eq_missing_iff.mpr (.inl ih)

theorem gather_run_eq_missing_iff {q : Missing} :
    (gather flatten parse (fun p => Seek.own (I.backend.openOne p args)) paths).run =
      pure (.error q) ↔ I.LacksListed parse flatten args paths q.path := by
  refine ⟨fun h => ?_, LacksListed.gather_run⟩
  induction paths with
  | nil => cases h
  | cons p rest ih =>
    rw [gather, Seek.bind_run_eq_missing_iff, Seek.own_run_eq_missing_iff] at h
    rcases h with hopen | ⟨file, hopen, h⟩
    · exact .here hopen
    · rw [Seek.own_run_eq_ok_iff] at hopen
      rcases Seek.bind_run_eq_missing_iff.mp h with h | ⟨items, hitems, h⟩
      · exact absurd h Seek.lift_run_ne_missing
      · obtain ⟨v, hparse, hitems⟩ := Run.bind_eq_pure_iff.mp (Seek.lift_run_eq_ok_iff.mp hitems)
        rcases Seek.bind_run_eq_missing_iff.mp h with h | ⟨others, -, h⟩
        · exact .later hopen hparse hitems (ih h)
        · cases h

end Listed

theorem gather_pure_run_ne_missing {flatten : Bool} {files : List Opened} {q : Missing} :
    (gather (m := Id) flatten parse pure files).run ≠ pure (.error q) := by
  induction files with
  | nil =>
    intro h
    cases h
  | cons file rest ih =>
    intro h
    rw [gather, pure_bind] at h
    rcases Seek.bind_run_eq_missing_iff.mp h with h | ⟨items, -, h⟩
    · exact Seek.lift_run_ne_missing h
    · rcases Seek.bind_run_eq_missing_iff.mp h with h | ⟨others, -, h⟩
      · exact ih h
      · cases h

/-- The target is missing exactly if a call that is made for the directive itself says so. -/
theorem found_run_eq_missing_iff {route : Route} {path : String} {q : Missing} :
    (I.found parse d route path).run = pure (.error q) ↔ I.Lacks parse d path route q.path := by
  constructor
  · intro h
    unfold found at h
    cases route with
    | remoteGlob =>
      rcases Seek.bind_run_eq_missing_iff.mp h with h | ⟨files, -, h⟩
      · exact .matching (Seek.own_run_eq_missing_iff.mp h)
      · rcases Seek.bind_run_eq_missing_iff.mp h with h | ⟨vs, -, h⟩
        · exact absurd h gather_pure_run_ne_missing
        · cases h
    | localGlob =>
      rcases Seek.bind_run_eq_missing_iff.mp h with h | ⟨plan, hplan, h⟩
      · exact absurd h Seek.lift_run_ne_missing
      · replace hplan := Run.ofExcept_eq_pure_iff.mp (Seek.lift_run_eq_ok_iff.mp hplan)
        rcases Seek.bind_run_eq_missing_iff.mp h with h | ⟨paths, hglob, h⟩
        · exact .listing hplan (Seek.own_run_eq_missing_iff.mp h)
        · replace hglob := Seek.own_run_eq_ok_iff.mp hglob
          rcases Seek.bind_run_eq_missing_iff.mp h with h | ⟨vs, -, h⟩
          · exact .listed hplan hglob (gather_run_eq_missing_iff.mp h)
          · cases h
    | remoteSingle =>
      rcases Seek.bind_run_eq_missing_iff.mp h with h | ⟨file, -, h⟩
      · exact .single rfl (Seek.own_run_eq_missing_iff.mp h)
      · exact absurd h Seek.lift_run_ne_missing
    | localSingle =>
      rcases Seek.bind_run_eq_missing_iff.mp h with h | ⟨file, -, h⟩
      · exact .single rfl (Seek.own_run_eq_missing_iff.mp h)
      · exact absurd h Seek.lift_run_ne_missing
  · intro h
    cases h with
    | single hroute hopen =>
      have hown := Seek.own_run_eq_missing_iff.mpr hopen
      cases route with
      | remoteGlob => cases hroute
      | localGlob => cases hroute
      | remoteSingle => exact Seek.bind_run_eq_missing_iff.mpr (.inl hown)
      | localSingle => exact Seek.bind_run_eq_missing_iff.mpr (.inl hown)
    | matching hopen =>
      exact Seek.bind_run_eq_missing_iff.mpr (.inl (Seek.own_run_eq_missing_iff.mpr hopen))
    | listing hplan hglob =>
      have hlift := Seek.lift_run_eq_ok_iff.mpr (Run.ofExcept_eq_pure_iff.mpr hplan)
      refine Seek.bind_run_eq_missing_iff.mpr (.inr ⟨_, hlift, ?_⟩)
      exact Seek.bind_run_eq_missing_iff.mpr (.inl (Seek.own_run_eq_missing_iff.mpr hglob))
    | listed hplan hglob h =>
      have hlift := Seek.lift_run_eq_ok_iff.mpr (Run.ofExcept_eq_pure_iff.mpr hplan)
      refine Seek.bind_run_eq_missing_iff.mpr (.inr ⟨_, hlift, ?_⟩)
      refine Seek.bind_run_eq_missing_iff.mpr (.inr ⟨_, Seek.own_run_eq_ok_iff.mpr hglob, ?_⟩)
      exact Seek.bind_run_eq_missing_iff.mpr (.inl (gather_run_eq_missing_iff.mpr h))

/-! ## Defaults -/

end Includer

theorem Content.text?_ofText (text : String) : (Content.ofText text).text? = .ok text := by
  have hread : String.fromUTF8? text.toUTF8 = some text := by
    unfold String.fromUTF8?
    rw [String.toUTF8_eq_toByteArray, dif_pos text.isValidUTF8]
    rfl
  unfold text? ofText ofBytes
  dsimp only [bind, Except.bind]
  rw [hread]
  rfl

namespace Includer

variable {I : Includer Id} {parse : String → Content → Run Id Value} {d : Directive}

/-- The target of a directive, joined to the base directory. -/
def place (I : Includer Id) (d : Directive) : Resolved := Target.resolve d.target (Id.run I.currentBase)

/-- The target is looked for first, and the default only counts when it is missing. -/
theorem resolveWith_eq : I.resolveWith parse d =
    (I.found parse d (I.place d).route (I.place d).path).run >>= fun
      | .ok v => pure v
      | .error q =>
        match d.default with
        | some v => defaultValue parse (I.place d).path v
        | none => Run.raise (.notFound q.path) := rfl

theorem defaultValue_of_not_text {path : String} {v : Value} (h : ∀ text, v ≠ .string text) :
    (defaultValue parse path v : Run Id Value) = pure v := by
  cases v with
  | string text => exact absurd rfl (h text)
  | _ => rfl

section Text
variable {path text : String}

theorem defaultValue_string : defaultValue parse path (.string text) =
    (parse path (.ofText text)).orElseOn fun _ => pure (.string text) := rfl

theorem defaultValue_of_parsed {w : Value} (h : parse path (.ofText text) = pure w) :
    defaultValue parse path (.string text) = pure w := by
  rw [defaultValue_string, h]
  rfl

theorem defaultValue_of_fault {f : Fault} (h : parse path (.ofText text) = Run.raise f) :
    defaultValue parse path (.string text) = pure (.string text) := by
  rw [defaultValue_string, h]
  rfl

theorem defaultValue_string_cases :
    (∃ w, defaultValue parse path (.string text) = pure w) ∨
      parse path (.ofText text) = throw .nesting ∨
      parse path (.ofText text) = throw .timeoutOverflow := by
  rcases Run.eq_pure_or_eq_throw (parse path (.ofText text)) with ⟨w, hw⟩ | ⟨e, he⟩
  · exact .inl ⟨w, defaultValue_of_parsed hw⟩
  · cases e with
    | fault f => exact .inl ⟨.string text, defaultValue_of_fault he⟩
    | nesting => exact .inr (.inl he)
    | timeoutOverflow => exact .inr (.inr he)

end Text

end Includer

/-- The directive with nothing in place of a missing target. -/
def Directive.withoutDefault (d : Directive) : Directive := { d with default := none }

namespace Includer

variable {I : Includer Id} {parse : String → Content → Run Id Value} {d : Directive}

/-- Without a default nothing else changes, and a missing target is told by its name. -/
theorem resolveWith_withoutDefault_eq : I.resolveWith parse d.withoutDefault =
    (I.found parse d (I.place d).route (I.place d).path).run >>= fun
      | .ok v => pure v
      | .error q => Run.raise (.notFound q.path) := rfl

/-- **A default stands for the target of its own directive and for nothing else.** Without the
default the directive gives the same value, and it fails in the same way unless a call made for the
directive itself finds nothing. Then it has a value: the default, or what the default's text reads as
at the place of the target. Only where the includes of that text are cut off there is none. -/
theorem resolve_default {left : Nat} (hn : I.nesting = left + 1) {v : Value} (hv : d.default = some v) :
    (∀ w, I.resolve d.withoutDefault = pure w → I.resolve d = pure w) ∧
    (∀ e, I.resolve d.withoutDefault = throw e →
      (¬ ∃ q, I.Lacks (I.parseContentWith (I.resolveAt left)) d (I.place d).path (I.place d).route q) →
      I.resolve d = throw e) ∧
    ∀ q, I.Lacks (I.parseContentWith (I.resolveAt left)) d (I.place d).path (I.place d).route q →
      I.resolve d.withoutDefault = Run.raise (.notFound q) ∧
      ((∀ text, v ≠ .string text) → I.resolve d = pure v) ∧
      ∀ text, v = .string text →
        (∀ w, I.parseContentWith (I.resolveAt left) (I.place d).path (.ofText text) = pure w →
          I.resolve d = pure w) ∧
        (∀ f, I.parseContentWith (I.resolveAt left) (I.place d).path (.ofText text) = Run.raise f →
          I.resolve d = pure v) ∧
        ((∃ w, I.resolve d = pure w) ∨
          I.parseContentWith (I.resolveAt left) (I.place d).path (.ofText text) = throw .nesting ∨
          I.parseContentWith (I.resolveAt left) (I.place d).path (.ofText text) =
            throw .timeoutOverflow) := by
  generalize hparse : I.parseContentWith (I.resolveAt left) = parse
  have hwith : I.resolve d = I.resolveWith parse d := by
    rw [resolve, hn, ← hparse]
    rfl
  have hwithout : I.resolve d.withoutDefault = I.resolveWith parse d.withoutDefault := by
    rw [resolve, hn, ← hparse]
    rfl
  rw [hwith, hwithout, resolveWith_withoutDefault_eq, resolveWith_eq, hv]
  refine ⟨?_, ?_, ?_⟩
  · intro w h
    obtain ⟨x, hx, hw⟩ := Run.bind_eq_pure_iff.mp h
    rw [hx, pure_bind]
    cases x with
    | ok u => exact hw
    | error q => cases hw
  · intro e h hlacks
    rcases Run.eq_pure_or_eq_throw
      (I.found parse d (I.place d).route (I.place d).path).run with ⟨x, hx⟩ | ⟨e', he⟩
    · rw [hx, pure_bind] at h
      cases x with
      | ok u => exact absurd h Run.pure_ne_throw
      | error q => exact absurd ⟨q.path, found_run_eq_missing_iff.mp hx⟩ hlacks
    · rw [he] at h ⊢
      exact h
  · intro q h
    rw [found_run_eq_missing_iff.mpr h, pure_bind, pure_bind]
    refine ⟨rfl, fun htext => defaultValue_of_not_text htext, ?_⟩
    rintro text rfl
    exact ⟨fun w => defaultValue_of_parsed, fun f => defaultValue_of_fault, defaultValue_string_cases⟩

def missingOrNull : Directive where
  target := "a"
  default := some (.string "")
  target_shows := rfl

def findingNothing : Includer Id := { backend := Memory.backend ⟨[]⟩ }

theorem resolve_default_missing :
    findingNothing.nesting = 1999 + 1 ∧ missingOrNull.default = some (.string "") ∧
      findingNothing.resolve missingOrNull.withoutDefault = Run.raise (.notFound "a") ∧
      findingNothing.resolve missingOrNull = pure .null := by
  have hlacks : findingNothing.Lacks
      (findingNothing.parseContentWith (findingNothing.resolveAt 1999)) missingOrNull
      (findingNothing.place missingOrNull).path (findingNothing.place missingOrNull).route "a" :=
    .single rfl rfl
  have hparse : findingNothing.parseContentWith (findingNothing.resolveAt 1999)
      (findingNothing.place missingOrNull).path (.ofText "") = pure .null := by
    rfl
  have hn : findingNothing.nesting = 1999 + 1 := rfl
  have hv : missingOrNull.default = some (.string "") := rfl
  obtain ⟨-, -, hmissing⟩ := resolve_default hn hv
  obtain ⟨hbare, -, htext⟩ := hmissing "a" hlacks
  exact ⟨hn, hv, hbare, (htext "" rfl).1 .null hparse⟩

end Includer
end Transclusion
