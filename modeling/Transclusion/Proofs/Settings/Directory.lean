import Transclusion.Command.Rendering
import Transclusion.Disk.Tree
import Transclusion.Proofs.Results
import Transclusion.Proofs.Runs

/-!
# The directory of a document as the base of its includes

The directory that is taken from the path of a document goes through the expansion that is meant for settings.

* `Environment.Named` : what a dollar sign stands in front of when it is expanded;
* `Environment.expand_eq_self_iff` : the texts that no environment changes;
* `Attempt.Returns` : what an attempt over a state gives;
* `Invocation.run_includer` : the includer of a command line, by the settings that it ends up with;
* `Invocation.includer_directory` : the base directory is the document's, as expanded;
* `Invocation.includer_not_directory` : it need not be the document's own.
-/

namespace Transclusion

/-! ## Texts that stay as they are -/

namespace Environment

open Text

/-- What follows a dollar sign is the name of a variable, perhaps in braces, or a second dollar sign. -/
def Named (after : List Char) : Prop :=
  (∃ c rest, after = c :: rest ∧ (c = '$' ∨ isNameChar c = true)) ∨
    ∃ body rest, after = '\x7b' :: (body ++ '\x7d' :: rest)

/-- No dollar sign stands for anything else. -/
def Plain (cs : List Char) : Prop := ∀ before after, cs = before ++ '$' :: after → ¬ Named after

def FromHome (cs : List Char) : Prop := ∃ rest, cs = '~' :: rest ∧ (rest = [] ∨ rest.head? = some '/')

def bare : Environment := { bindings := [] }

variable {env : Environment} {cs rest value after out : List Char}

theorem plain_nil : Plain [] := by
  intro before after h
  simp at h

theorem Plain.of_append (before : List Char) (h : Plain (before ++ cs)) : Plain cs := by
  rintro b after rfl
  exact h (before ++ b) after (by simp)

theorem plain_cons {c : Char} (h : c ≠ '$') : Plain (c :: cs) ↔ Plain cs := by
  constructor
  · exact fun hc => Plain.of_append [c] hc
  · intro hcs before after heq
    cases before with
    | nil =>
      cases heq
      exact absurd rfl h
    | cons b before =>
      cases heq
      exact hcs before after rfl

theorem Plain.append {before : List Char} (h : Plain cs) (hbefore : '$' ∉ before) : Plain (before ++ cs) := by
  induction before with
  | nil => exact h
  | cons c before ih =>
    obtain ⟨hc, hrest⟩ := not_or.mp (mt List.mem_cons.mpr hbefore)
    exact (plain_cons (Ne.symm hc)).mpr (ih hrest)

theorem plain_of_not_mem (h : '$' ∉ cs) : Plain cs := by simpa using plain_nil.append h

theorem plain_dollar : Plain ('$' :: rest) ↔ ¬ Named rest ∧ Plain rest := by
  constructor
  · exact fun h => ⟨h [] rest rfl, Plain.of_append ['$'] h⟩
  · rintro ⟨hname, hrest⟩ before after heq
    cases before with
    | nil =>
      cases heq
      exact hname
    | cons b before =>
      cases heq
      exact hrest before after rfl

/-- A dollar sign that names nothing stays, perhaps with a brace behind it. -/
theorem expandDollar_of_not_named (env : Environment) (h : ¬ Named rest) :
    ∃ kept after, env.expandDollar rest = .ok ('$' :: kept, after) ∧ rest = kept ++ after ∧ '$' ∉ kept := by
  unfold expandDollar
  split
  · rename_i inner
    split
    · rename_i body after hcut
      exact absurd (.inr ⟨body, after, by rw [(cutAt_eq_some hcut).1]⟩) h
    · exact ⟨['\x7b'], inner, rfl, rfl, by decide⟩
  · rename_i after
    exact absurd (.inl ⟨'$', after, rfl, .inl rfl⟩) h
  · rename_i c tail _ _
    split
    · rename_i hc
      exact absurd (.inl ⟨c, tail, rfl, .inr hc⟩) h
    · exact ⟨[], c :: tail, rfl, rfl, by simp⟩
  · exact ⟨[], [], rfl, rfl, by simp⟩

theorem expandFrom_of_plain (env : Environment) (fuel : Nat) (h : Plain cs) : env.expandFrom fuel cs = .ok cs := by
  induction fuel generalizing cs with
  | zero => rfl
  | succ fuel ih =>
    cases cs with
    | nil => rfl
    | cons c rest =>
      rw [expandFrom]
      by_cases hc : c = '$'
      · subst hc
        obtain ⟨hname, hrest⟩ := plain_dollar.mp h
        obtain ⟨kept, after, hdollar, rfl, -⟩ := expandDollar_of_not_named env hname
        rw [if_pos (by rfl), hdollar]
        change (do return '$' :: kept ++ (← env.expandFrom fuel after)) = _
        rw [ih (hrest.of_append _)]
        rfl
      · rw [if_neg (by simpa using hc), ih ((plain_cons hc).mp h)]
        rfl

/-! ### Where nothing is set -/

theorem lookup_bare {name : List Char} {default : Option (List Char)} (h : bare.lookup name default = .ok value) :
    default = some value := by
  unfold lookup at h
  cases default <;> cases h
  rfl

theorem length_cutDefault {default : List Char} (h : (cutDefault cs).2 = some default) :
    default.length < cs.length := by
  induction cs using cutDefault.induct with
  | case1 => cases h
  | case2 rest =>
    cases h
    simp only [List.length_cons]
    omega
  | case3 c rest hne ih =>
    rw [cutDefault.eq_3 _ _ hne] at h
    exact Nat.lt_succ_of_lt (ih h)

theorem length_nameAndDefault {default : List Char} (h : (nameAndDefault cs).2 = some default) :
    default.length < cs.length := by
  unfold nameAndDefault at h
  split at h
  · cases h
  · exact length_cutDefault h

/-- Where nothing is set, a dollar sign with a name leaves less than there was. -/
theorem length_expandDollar_of_named (h : Named rest) (hok : bare.expandDollar rest = .ok (value, after)) :
    value.length + after.length ≤ rest.length := by
  unfold expandDollar at hok
  split at hok
  · rename_i inner
    split at hok
    · rename_i body tail hcut
      obtain ⟨v, hv, hpair⟩ := exists_of_bind_eq_ok hok
      cases hpair
      have hdefault := length_nameAndDefault (lookup_bare hv)
      have hlength := congrArg List.length (cutAt_eq_some hcut).1
      simp only [List.length_append, List.length_cons] at hlength ⊢
      omega
    · rename_i hcut
      exfalso
      rcases h with ⟨c, tail, heq, hc⟩ | ⟨body, tail, heq⟩
      · cases heq
        rcases hc with hc | hc
        · exact absurd hc (by decide)
        · exact absurd hc (by decide +kernel)
      · cases heq
        exact cutAt_eq_none_iff.mp hcut (by simp)
  · cases hok
    simp
    omega
  · rename_i c tail hbrace hdollar
    split at hok
    · obtain ⟨v, hv, -⟩ := exists_of_bind_eq_ok hok
      cases lookup_bare hv
    · rename_i hc
      exfalso
      rcases h with ⟨c', tail', heq, hc'⟩ | ⟨body, tail', heq⟩
      · cases heq
        rcases hc' with rfl | hc'
        · exact hdollar rfl
        · exact hc hc'
      · cases heq
        exact hbrace rfl
  · exfalso
    rcases h with ⟨c, tail, heq, -⟩ | ⟨body, tail, heq⟩
    · cases heq
    · cases heq

/-- Where nothing is set, no text gets longer, and one that names something gets shorter. -/
theorem length_expandFrom {fuel : Nat} (hfuel : cs.length < fuel) (h : bare.expandFrom fuel cs = .ok out) :
    out.length ≤ cs.length ∧ (out.length = cs.length → Plain cs) := by
  induction fuel generalizing cs out with
  | zero => cases hfuel
  | succ fuel ih =>
    cases cs with
    | nil =>
      cases h
      exact ⟨Nat.le_refl _, fun _ => plain_nil⟩
    | cons c rest =>
      rw [expandFrom] at h
      by_cases hc : c = '$'
      · subst hc
        rw [if_pos (by rfl)] at h
        obtain ⟨⟨value, after⟩, hdollar, h⟩ := exists_of_bind_eq_ok h
        obtain ⟨tail, htail, heq⟩ := exists_of_bind_eq_ok h
        cases heq
        by_cases hname : Named rest
        · have hless := length_expandDollar_of_named hname hdollar
          have htail := (ih (by simp at hfuel; omega) htail).1
          simp only [List.length_append, List.length_cons]
          exact ⟨by omega, fun heq => by omega⟩
        · obtain ⟨kept, after', hok, rfl, hkept⟩ := expandDollar_of_not_named bare hname
          rw [hok] at hdollar
          cases hdollar
          obtain ⟨hle, hplain⟩ := ih (by simp at hfuel; omega) htail
          simp only [List.length_append, List.length_cons]
          exact ⟨by omega, fun heq => plain_dollar.mpr ⟨hname, (hplain (by omega)).append hkept⟩⟩
      · rw [if_neg (by simpa using hc)] at h
        obtain ⟨tail, htail, heq⟩ := exists_of_bind_eq_ok h
        cases heq
        obtain ⟨hle, hplain⟩ := ih (by simp at hfuel; omega) htail
        simp only [List.length_cons]
        exact ⟨by omega, fun heq => (plain_cons hc).mpr (hplain (by omega))⟩

/-! ### In every environment -/

theorem expandVariables_of_plain (env : Environment) {text : String} (h : Plain text.toList) :
    env.expandVariables text = .ok text := by
  unfold expandVariables
  rw [expandFrom_of_plain env _ h]
  exact congrArg Except.ok (String.ofList_toList ..)

theorem plain_of_expand {text : String} (h : bare.expand text = .ok text) : Plain text.toList := by
  unfold expand at h
  obtain ⟨expanded, hvars, h⟩ := exists_of_bind_eq_ok h
  have hhome : bare.expandHome expanded = expanded := by
    unfold expandHome
    split
    · split
      · rfl
      · rfl
    · rfl
  have heq : expanded = text := by
    rw [hhome] at h
    split at h <;> exact Except.ok.inj h
  rw [heq] at hvars
  unfold expandVariables at hvars
  cases hout : bare.expandFrom (text.length + 1) text.toList with
  | error u =>
    rw [hout] at hvars
    cases hvars
  | ok out =>
    rw [hout] at hvars
    have hlist : out = text.toList := by rw [← Except.ok.inj hvars, String.toList_ofList]
    have hfuel : text.toList.length < text.length + 1 := Nat.lt_succ_of_le (Nat.le_of_eq String.length_toList)
    exact (length_expandFrom hfuel hout).2 (by rw [hlist])

theorem expandHome_of_not_fromHome (env : Environment) {text : String} (h : ¬ FromHome text.toList) :
    env.expandHome text = text := by
  unfold expandHome
  split
  · rename_i rest htext
    split
    · rename_i hrest
      refine absurd ⟨rest, htext, ?_⟩ h
      simpa using hrest
    · rfl
  · rfl

/-- **The texts that no environment changes**: no variable is named, and the home directory is not at the start. -/
theorem expand_eq_self_iff {text : String} :
    (∀ env : Environment, env.expand text = .ok text) ↔ Plain text.toList ∧ ¬ FromHome text.toList := by
  constructor
  · intro h
    -- Where nothing is set no variable can stand, and where the home directory is `/` a tilde cannot.
    have hplain := plain_of_expand (h bare)
    refine ⟨hplain, ?_⟩
    rintro ⟨rest, htext, hrest⟩
    have hroot := h { bindings := [("HOME", "/")] }
    have hslash : (rest.isEmpty || rest.head? == some '/') = true := by simpa using hrest
    unfold expand at hroot
    rw [expandVariables_of_plain _ hplain, htext] at hroot
    have hhome : expandHome { bindings := [("HOME", "/")] } text = "/" ++ String.ofList rest := by
      have hdirectory : home? { bindings := [("HOME", "/")] } = some "/" := by decide
      simp [expandHome, htext, hslash, hdirectory]
    have heq : "/" ++ String.ofList rest = text := by
      rw [← hhome]
      exact Except.ok.inj hroot
    have hlists := congrArg String.toList heq
    rw [htext, String.toList_append, String.toList_ofList] at hlists
    cases hlists
  · rintro ⟨hplain, hhome⟩ env
    unfold expand
    rw [expandVariables_of_plain env hplain]
    change (if _ then Except.ok (env.expandHome text) else Except.ok text) = _
    rw [expandHome_of_not_fromHome env hhome, ite_self]

end Environment

/-! ## Includers of a command line -/

section
variable {σ α : Type}

def Attempt.Returns (r : Attempt (StateM σ) α) (s : σ) (a : α) (s' : σ) : Prop :=
  Run.Returns (ExceptT.run r) s (.ok a) s'

def Attempt.Fails (r : Attempt (StateM σ) α) (s : σ) (t : Trouble) (s' : σ) : Prop :=
  Run.Returns (ExceptT.run r) s (.error t) s'

end

namespace Invocation

variable {σ : Type} {i : Invocation} {E : Regex.Engine} {env : Environment} {disk : Disk (StateM σ)}
  {web : Web (StateM σ)}
  {below : Settings} {s s' : σ}

/-- The includer is that of the settings that the command line ends up with. -/
theorem run_includer (hread : (i.fileSettings disk).Returns s below s') :
    Run.Returns (ExceptT.run (i.includer E env disk web)) s
      (match (i.withDirectory (below.overlay i.settings)).includer E env disk web with
        | .ok I => .ok I
        | .error f => .error ⟨[], .fault f⟩) s' := by
  unfold includer
  rw [ExceptT.run_bind]
  refine Run.returns_bind.mpr ⟨.ok below, s', hread, ?_⟩
  dsimp only
  cases (i.withDirectory (below.overlay i.settings)).includer E env disk web <;> rfl

end Invocation

section
variable {m : Type → Type} {J : Includer m}

/-- The base directory decides nothing else. -/
theorem Includer.Options.build_withBaseDir {o : Options m} (h : o.build = .ok J) (base : BaseDir m) :
    ({ o with baseDir := some base } : Options m).build = .ok (J.withBaseDir base) := by
  unfold build at h ⊢
  cases htag : o.tag with
  | none =>
    rw [htag] at h
    cases h
    rfl
  | some name =>
    rw [htag] at h
    obtain ⟨tag, hname, hJ⟩ := exists_of_bind_eq_ok h
    cases hJ
    change (tagOfName name >>= _) = _
    rw [hname]
    rfl

variable [Monad m] {S : Settings} {E : Regex.Engine} {env env' : Environment} {disk : Disk m} {web : Web m}

/-- Settings that give an includer without a base directory give one with any that can be expanded. -/
theorem Settings.includer_withBaseDir (hnone : S.baseDir = none) (h : S.includer E env disk web = .ok J) (d : String) :
    ({ S with baseDir := some d } : Settings).includer E env' disk web =
      match env'.expand d with
      | .ok e => .ok (J.withBaseDir (.fixed e))
      | .error u => .error (.config (.baseDir d u)) := by
  unfold includer options base? at h
  rw [hnone] at h
  obtain ⟨o, ho, hbuild⟩ := exists_of_bind_eq_ok h
  obtain ⟨base, hbase, ho⟩ := exists_of_bind_eq_ok ho
  cases hbase
  obtain ⟨loader, hloader, ho⟩ := exists_of_bind_eq_ok ho
  cases ho
  unfold includer options base? BaseDir.expanded
  dsimp only
  cases env'.expand d with
  | error u => rfl
  | ok e =>
    change (S.loader? E >>= _) >>= _ = _
    rw [hloader]
    exact Includer.Options.build_withBaseDir hbuild (.fixed e)

end

namespace Invocation

variable {σ : Type} {i : Invocation} {E : Regex.Engine} {env : Environment} {disk : Disk (StateM σ)}
  {web : Web (StateM σ)}
  {below : Settings} {s s' : σ} {J : Includer (StateM σ)} {d : String}

/-- What is known where no base directory is given but that of the document. -/
structure Beside (i : Invocation) (E : Regex.Engine) (disk : Disk (StateM σ)) (web : Web (StateM σ)) (d : String)
    (J : Includer (StateM σ)) (s s' : σ) : Prop where
  file : i.readsStream = false
  parent : Path.parent? i.file = some d
  nonempty : d ≠ ""
  flag : i.baseDir = none
  /-- The settings file has no base directory, and the settings are valid. -/
  settings : ∃ below, (i.fileSettings disk).Returns s below s' ∧ below.baseDir = none ∧
    (below.overlay i.settings).includer E .bare disk web = .ok J

theorem Beside.run_includer (h : i.Beside E disk web d J s s') (env : Environment) :
    Run.Returns (ExceptT.run (i.includer E env disk web)) s
      (match env.expand d with
        | .ok e => .ok (J.withBaseDir (.fixed e))
        | .error u => .error ⟨[], .fault (.config (.baseDir d u))⟩) s' := by
  obtain ⟨below, hread, hnone, hvalid⟩ := h.settings
  have hdirectory : i.directory? = some d := by
    unfold directory?
    rw [h.file, h.parent]
    simp [h.nonempty]
  have hbase : (below.overlay i.settings).baseDir = none := by
    change (i.baseDir <|> below.baseDir) = none
    rw [h.flag, hnone]
    rfl
  have hsettings : i.withDirectory (below.overlay i.settings) = { below.overlay i.settings with baseDir := some d } := by
    unfold withDirectory
    rw [hbase, hdirectory]
    rfl
  have hrun : Run.Returns (ExceptT.run (i.includer E env disk web)) s _ s' := Invocation.run_includer hread
  rw [hsettings, Settings.includer_withBaseDir hbase hvalid] at hrun
  cases he : env.expand d <;> simpa [he] using hrun

/-- **The base directory is the document's own, as the environment expands it**: it is exactly that directory in all
environments if and only if its name has nothing that could be expanded. -/
theorem includer_directory (h : i.Beside E disk web d J s s') :
    (∀ env e, env.expand d = .ok e → (i.includer E env disk web).Returns s (J.withBaseDir (.fixed e)) s') ∧
    (∀ env u, env.expand d = .error u →
      (i.includer E env disk web).Fails s ⟨[], .fault (.config (.baseDir d u))⟩ s') ∧
    ((∀ env, ∃ I, (i.includer E env disk web).Returns s I s' ∧ I.baseDir = some (.fixed d)) ↔
      Environment.Plain d.toList ∧ ¬ Environment.FromHome d.toList) := by
  have hrun := h.run_includer
  refine ⟨fun env e he => ?_, fun env u hu => ?_, ?_⟩
  · have hexpanded := hrun env
    rw [he] at hexpanded
    exact hexpanded
  · have hunset := hrun env
    rw [hu] at hunset
    exact hunset
  · rw [← Environment.expand_eq_self_iff]
    refine forall_congr' fun env => ?_
    specialize hrun env
    cases he : env.expand d with
    | error u =>
      rw [he] at hrun
      constructor
      · rintro ⟨I, hI, -⟩
        cases (hrun.unique hI).1
      · nofun
    | ok e =>
      rw [he] at hrun
      rw [Except.ok.injEq]
      constructor
      · rintro ⟨I, hI, hbase⟩
        cases (hrun.unique hI).1
        cases hbase
        rfl
      · rintro rfl
        exact ⟨_, hrun, rfl⟩

/-! ### A document and nothing else -/

def ofFile (file : String) : Invocation :=
  { file, baseDir := none, tag := none, noAutoload := false, byName := false, format := .yaml, config := none,
    verbose := false, quiet := false }

theorem exists_beside_ofFile (E : Regex.Engine) (file : String) {d : String} (hfile : (file == "-") = false)
    (hparent : Path.parent? file = some d) (hd : d ≠ "") (disk : Disk (StateM σ)) (web : Web (StateM σ)) (s : σ) :
    ∃ J, (ofFile file).Beside E disk web d J s s :=
  ⟨_, hfile, hparent, hd, rfl, {}, rfl, rfl, rfl⟩

def emptyDisk : Disk (StateM Unit) := (FileTree.dir []).disk []

theorem includer_directory_odd :
    ∃ J, (ofFile "a$/~b/doc.yaml").Beside Regex.engine emptyDisk .unreachable "a$/~b" J () () ∧
      ∀ env, ∃ I, ((ofFile "a$/~b/doc.yaml").includer Regex.engine env emptyDisk .unreachable).Returns () I () ∧
        I.baseDir = some (.fixed "a$/~b") := by
  obtain ⟨J, h⟩ := exists_beside_ofFile Regex.engine "a$/~b/doc.yaml" (d := "a$/~b") (by decide) (by decide +kernel)
    (by decide) emptyDisk .unreachable ()
  refine ⟨J, h, (includer_directory h).2.2.mpr ⟨?_, ?_⟩⟩
  · have hlist : "a$/~b".toList = ['a'] ++ '$' :: ['/', '~', 'b'] := by decide
    rw [hlist]
    refine Environment.Plain.append (Environment.plain_dollar.mpr ⟨?_, ?_⟩) (by decide)
    · rintro (⟨c, rest, heq, hc⟩ | ⟨body, rest, heq⟩)
      · cases heq
        revert hc
        decide +kernel
      · cases heq
    · exact Environment.plain_of_not_mem (by decide)
  · rintro ⟨rest, heq, -⟩
    cases heq

/-- A dollar sign in the name of the document's directory is expanded too. -/
theorem includer_not_directory :
    ¬ ∀ (i : Invocation) (d : String) (J : Includer (StateM Unit)), i.Beside Regex.engine emptyDisk .unreachable d J () () →
      ∀ env, ∃ I, (i.includer Regex.engine env emptyDisk .unreachable).Returns () I () ∧ I.baseDir = some (.fixed d) := by
  intro h
  obtain ⟨J, hbeside⟩ := exists_beside_ofFile Regex.engine "a$b/doc.yaml" (d := "a$b") (by decide) (by decide +kernel)
    (by decide) emptyDisk .unreachable ()
  obtain ⟨I, hI, -⟩ := h _ _ J hbeside .bare
  have hexpand : Environment.bare.expand "a$b" = .error ⟨"b"⟩ := by rfl
  have hrun := hbeside.run_includer .bare
  rw [hexpand] at hrun
  cases (hrun.unique hI).1

end Invocation
end Transclusion
