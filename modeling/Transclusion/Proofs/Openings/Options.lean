import Transclusion.Http.Remote
import Transclusion.Local
import Transclusion.Proofs.Results
import Transclusion.Proofs.Runs
import Transclusion.Proofs.Values.Doubles
import Transclusion.Proofs.Values.Keys

/-!
# Options are checked before anything is opened

An opening looks at its options first, and asks the disk or the web only when all of them are in order. Why an option
is refused is then known from the path and the arguments alone.

* `Decides` : a check passes exactly if something holds, and refuses an option otherwise;
* `OpenOptions.Admissible`, `Http.Admissible` : arguments whose options are all in order;
* `OpenOptions.decides_check`, `Http.decides_headers` : what the checks decide;
* `OpenOptions.refused_before_access` : a refusal is the same for every disk and web, which are not asked.
-/

namespace Transclusion

open Text (toLowerAscii)

/-! ## Checks -/

section
variable {α γ δ : Type} {P Q : Prop} {x : Except Fault γ}

/-- The check passes if `P` holds, and refuses an option otherwise. -/
def Decides (P : Prop) (x : Except Fault γ) : Prop :=
  (P ∧ ∃ c, x = .ok c) ∨ ¬ P ∧ ∃ cause, x = .error (.config cause)

namespace Decides

theorem ok (c : γ) (hP : P) : Decides P (.ok c : Except Fault γ) := .inl ⟨hP, c, rfl⟩

theorem error (cause : ConfigFault) (hP : ¬ P) : Decides P (.error (.config cause) : Except Fault γ) :=
  .inr ⟨hP, cause, rfl⟩

theorem congr (h : Decides P x) (hiff : P ↔ Q) : Decides Q x := by
  unfold Decides at *
  rwa [← hiff]

theorem guard {p : Prop} [Decidable p] {cause : ConfigFault} (hp : p ↔ ¬ P) (h : Decides Q x) :
    Decides (P ∧ Q) (if p then .error (.config cause) else x) := by
  by_cases hP : P
  · rw [if_neg (fun h => hp.mp h hP)]
    apply h.congr
    simp [hP]
  · rw [if_pos (hp.mpr hP)]
    apply error
    simp [hP]

theorem given {o : Option Value} {good : Value → Bool} {cause : Value → ConfigFault} (h : Decides Q x) :
    Decides ((∀ v, o = some v → good v = true) ∧ Q)
      (match o with
        | some v => if !good v then .error (.config (cause v)) else x
        | none => x) := by
  cases o with
  | none =>
    apply h.congr
    simp
  | some v =>
    have hv : (∀ w, some v = some w → good w = true) ↔ good v = true := by simp
    rw [hv]
    exact h.guard (by simp)

theorem bind {f : γ → Except Fault δ} (h : Decides P x) (hf : ∀ c, Decides Q (f c)) :
    Decides (P ∧ Q) (x.bind f) := by
  rcases h with ⟨hP, c, rfl⟩ | ⟨hP, cause, rfl⟩
  · apply (hf c).congr
    simp [hP]
  · apply error
    simp [hP]

theorem mapM {R : α → Prop} {f : α → Except Fault γ} {l : List α} (h : ∀ a ∈ l, Decides (R a) (f a)) :
    Decides (∀ a ∈ l, R a) (l.mapM f) := by
  induction l with
  | nil => exact ok _ (by simp)
  | cons a l ih =>
    obtain ⟨ha, hl⟩ := List.forall_mem_cons.mp h
    rw [List.mapM_cons, List.forall_mem_cons]
    exact ha.bind fun b => ((ih hl).bind fun bs => ok _ trivial).congr (by simp)

end Decides
end

/-! ## Options by name and by place -/

namespace Args

/-- The option is given by its name, or else by its place. -/
def Gives (a : Args) (key : String) (index : Nat) (v : Value) : Prop :=
  Entries.get? key a.named = some v ∨ Entries.get? key a.named = none ∧ a.positional[index]? = some v

theorem get?_eq_some_iff {a : Args} {key : String} {index : Nat} {v : Value} :
    a.get? key index = some v ↔ a.Gives key index v := by
  unfold get? Gives
  cases Entries.get? key a.named <;> simp

def Known (a : Args) (keys : List String) : Prop := ∀ e ∈ a.named, ∃ key ∈ keys, e.1 = .string key

theorem unknownKey?_eq_none_iff {keys : List String} {k : Value} :
    unknownKey? keys k = none ↔ ∃ key ∈ keys, k = .string key := by
  cases k <;> simp [unknownKey?]

theorem unknownKeys_isEmpty_iff {a : Args} {keys : List String} :
    (a.unknownKeys keys).isEmpty = true ↔ a.Known keys := by
  rw [List.isEmpty_iff, unknownKeys, List.filterMap_eq_nil_iff]
  simp only [unknownKey?_eq_none_iff, Known]

end Args

/-! ## Options of every opening -/

namespace OpenOptions

variable {path : String} {args : Args} {extra : List String} {v : Value}

def NamesCompression (v : Value) : Prop :=
  v = .null ∨ ∃ s, v = .string s ∧ toLowerAscii s ∈ ["none", "gzip", "gz", "infer"]

/-- The options of every opening are in order, the names of further options being `extra`. -/
structure Admissible (extra : List String) (args : Args) : Prop where
  named : args.Known (["mode", "compression", "encoding"] ++ extra)
  positional : args.positional.length ≤ 3
  mode : ∀ v, args.Gives "mode" 0 v → ∃ s ∈ ["r", "rt", "rb"], v.text? = some s
  encoding : ∀ v, args.Gives "encoding" 2 v → ∃ s, v.text? = some s ∧ toLowerAscii s ∈ ["utf-8", "utf8"]
  compression : ∀ v, args.Gives "compression" 1 v → NamesCompression v

theorem isReading_iff : isReading v = true ↔ ∃ s ∈ ["r", "rt", "rb"], v.text? = some s := by
  unfold isReading
  cases v.text? <;> simp

theorem isEncoding_iff : isEncoding v = true ↔ ∃ s, v.text? = some s ∧ toLowerAscii s ∈ ["utf-8", "utf8"] := by
  unfold isEncoding
  cases v.text? <;> simp

theorem decides_compression (v : Value) : Decides (NamesCompression v) (Compression.ofValue v) := by
  cases v with
  | null => exact .ok _ (.inl rfl)
  | string s =>
    have hnames : NamesCompression (.string s) ↔ toLowerAscii s ∈ ["none", "gzip", "gz", "infer"] := by
      simp [NamesCompression]
    rw [hnames]
    unfold Compression.ofValue
    dsimp only
    split
    · rename_i h
      exact .ok _ (by simp [h])
    · rename_i h
      exact .ok _ (by simp [h])
    · rename_i h
      exact .ok _ (by simp [h])
    · rename_i h
      exact .ok _ (by simp [h])
    · rename_i hnone hgzip hgz hinfer
      exact .error _ (by simpa using ⟨hnone, hgzip, hgz, hinfer⟩)
  | _ => exact .error _ (by simp [NamesCompression])

/-- The check of an opening passes exactly if its options are in order. -/
theorem decides_check (path : String) (args : Args) (extra : List String) :
    Decides (Admissible extra args) (check path args extra) := by
  have hlast : Decides (∀ v, args.get? "compression" 1 = some v → NamesCompression v)
      (match args.get? "compression" 1 with
        | some v => Compression.ofValue v
        | none => .ok .none) := by
    cases args.get? "compression" 1 with
    | none => exact .ok _ (by simp)
    | some v => exact (decides_compression v).congr (by simp)
  have hall : Decides (args.Known (keys ++ extra) ∧ args.positional.length ≤ 3 ∧
      (∀ v, args.get? "mode" 0 = some v → isReading v = true) ∧
      (∀ v, args.get? "encoding" 2 = some v → isEncoding v = true) ∧
      ∀ v, args.get? "compression" 1 = some v → NamesCompression v) (check path args extra) := by
    refine .guard ?_ (.guard ?_ (.given (.given hlast)))
    · rw [← Args.unknownKeys_isEmpty_iff]
      simp
    · exact Nat.not_le.symm
  apply hall.congr
  simp only [Args.get?_eq_some_iff, isReading_iff, isEncoding_iff]
  constructor
  · rintro ⟨hnamed, hpositional, hmode, hencoding, hcompression⟩
    exact ⟨hnamed, hpositional, hmode, hencoding, hcompression⟩
  · rintro ⟨hnamed, hpositional, hmode, hencoding, hcompression⟩
    exact ⟨hnamed, hpositional, hmode, hencoding, hcompression⟩

end OpenOptions

/-! ## Options of an opening by the web -/

namespace Http

variable {path : String} {args : Args} {settings : Settings} {v : Value} {e : Value × Value}

/-- A header that can be told from its name and value: a text, and a text, number or truth value. -/
def IsHeader (e : Value × Value) : Prop :=
  (∃ s, e.1.text? = some s) ∧ ((∃ s, e.2 = .string s) ∨ (∃ n, e.2 = .number n) ∨ ∃ b, e.2 = .bool b)

/-- The options of an opening by the web are in order. -/
structure Admissible (args : Args) : Prop extends OpenOptions.Admissible ["headers", "timeout"] args where
  headers : ∀ v, Entries.get? "headers" args.named = some v → ∃ es, v = .mapping es ∧ ∀ e ∈ es, IsHeader e
  timeout : ∀ v, Entries.get? "timeout" args.named = some v → ∃ n, v.number? = some n ∧ n.Positive

theorem decides_header : Decides (IsHeader e) (header path e) := by
  obtain ⟨k, v⟩ := e
  unfold header IsHeader
  cases hk : k.text? with
  | none => exact .error _ (by simp)
  | some name => cases v <;> first | exact .ok _ (by simp) | exact .error _ (by simp)

theorem decides_headers (path : String) (args : Args) :
    Decides (∀ v, Entries.get? "headers" args.named = some v → ∃ es, v = .mapping es ∧ ∀ e ∈ es, IsHeader e)
      (headers path args) := by
  unfold headers
  cases hget : Entries.get? "headers" args.named with
  | none => exact .ok _ (by simp)
  | some v =>
    cases v with
    | mapping es => exact (Decides.mapM fun e _ => decides_header).congr (by simp)
    | _ => exact .error _ (by simp)

theorem exists_positive_of_seconds? {x : Binary64} (h : seconds? v = some x) :
    ∃ n, v.number? = some n ∧ n.Positive := by
  unfold seconds? at h
  rw [Option.filter_eq_some_iff, Option.map_eq_some_iff, Bool.and_eq_true] at h
  obtain ⟨⟨n, hn, rfl⟩, hfinite, hpositive⟩ := h
  exact ⟨n, hn, Number.positive_of_toBinary64 hfinite hpositive⟩

theorem seconds?_of_positive {n : Number} (hn : v.number? = some n) (h : n.Positive) (hfits : n.Fits) :
    seconds? v = some n.toBinary64 := by
  obtain ⟨hfinite, hpositive⟩ := h.toBinary64 hfits
  simp [seconds?, hn, hfinite, hpositive]

theorem timeout_refused
    (h : ¬ ∀ v, Entries.get? "timeout" args.named = some v → ∃ n, v.number? = some n ∧ n.Positive) :
    ∃ cause, ∀ settings, timeout settings args = .error (.fault (.config cause)) := by
  push Not at h
  obtain ⟨v, hget, hnone⟩ := h
  have hseconds : seconds? v = none := by
    by_contra hsome
    obtain ⟨x, hx⟩ := Option.ne_none_iff_exists'.mp hsome
    obtain ⟨n, hn, hpositive⟩ := exists_positive_of_seconds? hx
    exact hnone n hn hpositive
  refine ⟨.timeout v, fun settings => ?_⟩
  simp [timeout, hget, hseconds]

/-- A timeout is not refused, whether or not a duration can hold it. -/
theorem timeout_ne_config {cause : ConfigFault}
    (h : ∀ v, Entries.get? "timeout" args.named = some v → ∃ n, v.number? = some n ∧ n.Positive)
    (hfits : ∀ v n, Entries.get? "timeout" args.named = some v → v.number? = some n → n.Fits) :
    timeout settings args ≠ .error (.fault (.config cause)) := by
  unfold timeout
  cases hget : Entries.get? "timeout" args.named with
  | none => simp
  | some v =>
    obtain ⟨n, hn, hpositive⟩ := h v hget
    simp only [seconds?_of_positive hn hpositive (hfits v n hget hn)]
    split <;> simp

end Http

/-! ## Openings -/

def Fault.NotConfig (f : Fault) : Prop := ∀ cause, f ≠ .config cause

theorem Fault.notConfig_ofIo (operation path : String) (cause : IoFault) :
    (Fault.ofIo operation path cause).NotConfig := by
  intro c
  unfold ofIo
  split <;> simp

theorem Local.openOne_refused {path : String} {args : Args} {cause : ConfigFault} {m : Type → Type} [Monad m]
    [LawfulMonad m] (h : OpenOptions.check path args [] = .error (.config cause)) (disk : Disk m) :
    openOne disk path args = Run.raise (.config cause) := by
  unfold openOne
  rw [h]
  exact Run.raise_bind _ _

theorem Local.openOne_faults {path : String} {args : Args} {c : Compression} {σ : Type}
    (h : OpenOptions.check path args [] = .ok c) (disk : Disk (StateM σ)) :
    (openOne disk path args).Faults Fault.NotConfig := by
  unfold openOne
  rw [h]
  apply Run.Faults.bind_any
  · exact Run.Faults.pure c
  intro c
  apply Run.Faults.bind_any
  · exact Run.Faults.lift _
  intro found
  cases found with
  | ok content => exact Run.Faults.pure _
  | error f => exact Run.Faults.raise (Fault.notConfig_ofIo _ _ f)

namespace Http

theorem send_faults {σ : Type} (web : Web (StateM σ)) (shown : String) (request : Except HttpFault Request) :
    (send web shown request).Faults Fault.NotConfig := by
  cases request with
  | error f => exact Run.Faults.raise (by simp [Fault.NotConfig])
  | ok r =>
    apply Run.Faults.bind_any
    · exact Run.Faults.lift _
    intro answer
    cases answer with
    | error f => exact Run.Faults.raise (by simp [Fault.NotConfig])
    | ok answer =>
      dsimp only
      split
      · exact Run.Faults.raise (by simp [Fault.NotConfig])
      · split
        · exact Run.Faults.pure _
        · exact Run.Faults.raise (by simp [Fault.NotConfig])

/-- Whichever option is not in order, nothing is requested. -/
theorem openOne_refused {path : String} {args : Args} (h : ¬ Admissible args) :
    ∃ cause, ∀ {m : Type → Type} [Monad m] [LawfulMonad m] (web : Web m) (settings : Settings),
      openOne web settings path args = Run.raise (.config cause) := by
  rcases OpenOptions.decides_check path args openKeys with ⟨hshared, c, hcheck⟩ | ⟨-, cause, hcheck⟩
  swap
  · refine ⟨cause, fun web settings => ?_⟩
    rw [openOne, hcheck]
    exact Run.raise_bind _ _
  rcases decides_headers path args with ⟨hheaders, own, hown⟩ | ⟨-, cause, hown⟩
  swap
  · refine ⟨cause, fun web settings => ?_⟩
    rw [openOne, hcheck, hown]
    show (pure c >>= _) = _
    rw [pure_bind]
    exact Run.raise_bind _ _
  obtain ⟨cause, htimeout⟩ := timeout_refused fun htimeout => h ⟨hshared, hheaders, htimeout⟩
  refine ⟨cause, fun web settings => ?_⟩
  rw [openOne, hcheck, hown, htimeout]
  show (pure c >>= fun _ => pure own >>= _) = _
  rw [pure_bind, pure_bind]
  exact Run.raise_bind _ _

theorem openOne_faults {path : String} {args : Args} (h : Admissible args)
    (hfits : ∀ v n, Entries.get? "timeout" args.named = some v → v.number? = some n → n.Fits) {σ : Type}
    (web : Web (StateM σ)) (settings : Settings) : (openOne web settings path args).Faults Fault.NotConfig := by
  have hcheck : ∀ f, OpenOptions.check path args openKeys ≠ .error f := by
    intro f hf
    rcases OpenOptions.decides_check path args openKeys with ⟨-, c, hc⟩ | ⟨hnot, -⟩
    · cases hc.symm.trans hf
    · exact hnot h.toAdmissible
  have hheaders : ∀ f, headers path args ≠ .error f := by
    intro f hf
    rcases decides_headers path args with ⟨-, own, hown⟩ | ⟨hnot, -⟩
    · cases hown.symm.trans hf
    · exact hnot h.headers
  unfold openOne
  apply Run.Faults.bind_any
  · exact Run.Faults.ofExcept fun f hf => absurd hf (hcheck f)
  intro c
  apply Run.Faults.bind_any
  · exact Run.Faults.ofExcept fun f hf => absurd hf (hheaders f)
  intro own
  apply Run.Faults.bind_any
  · cases ht : timeout settings args with
    | ok d => exact Run.Faults.pure d
    | error e =>
      apply Run.Faults.throw
      rintro f rfl cause rfl
      exact timeout_ne_config h.timeout hfits ht
  intro timeout
  apply Run.Faults.bind_any
  · exact send_faults web path _
  intro content
  exact Run.Faults.pure _

end Http

namespace OpenOptions

/-- **Options are checked in full before any access.** An opening whose options are not all in order ends in the same
refusal whatever is on the disk or the web, and has no effect on them; one whose options are in order is not refused. -/
theorem refused_before_access (path : String) (args : Args) :
    (¬ Admissible [] args → ∃ cause, ∀ {m : Type → Type} [Monad m] [LawfulMonad m] (disk : Disk m),
      Local.openOne disk path args = Run.raise (.config cause)) ∧
    (Admissible [] args → ∀ {σ : Type} (disk : Disk (StateM σ)),
      (Local.openOne disk path args).Faults Fault.NotConfig) ∧
    (¬ Http.Admissible args → ∃ cause, ∀ {m : Type → Type} [Monad m] [LawfulMonad m] (web : Web m)
      (settings : Http.Settings), Http.openOne web settings path args = Run.raise (.config cause)) ∧
    (Http.Admissible args →
      (∀ v n, Entries.get? "timeout" args.named = some v → v.number? = some n → n.Fits) →
      ∀ {σ : Type} (web : Web (StateM σ)) (settings : Http.Settings),
        (Http.openOne web settings path args).Faults Fault.NotConfig) := by
  refine ⟨fun h => ?_, fun h σ disk => ?_, Http.openOne_refused, Http.openOne_faults⟩
  · rcases decides_check path args [] with ⟨hall, -⟩ | ⟨-, cause, hcheck⟩
    · exact absurd hall h
    · exact ⟨cause, Local.openOne_refused hcheck⟩
  · rcases decides_check path args [] with ⟨-, c, hcheck⟩ | ⟨hnot, -⟩
    · exact Local.openOne_faults hcheck disk
    · exact absurd h hnot

theorem refused_before_access_writing :
    (∃ cause, ∀ {m : Type → Type} [Monad m] [LawfulMonad m] (disk : Disk m),
      Local.openOne disk "a.yaml" (.ofNamed [(.string "mode", .string "w")]) = Run.raise (.config cause)) ∧
    ∀ {σ : Type} (web : Web (StateM σ)) (settings : Http.Settings),
      (Http.openOne web settings "http://h/a.yaml" (.ofNamed [(.string "timeout", .ofNat 5)])).Faults
        Fault.NotConfig := by
  have hwriting : ¬ Admissible [] (.ofNamed [(.string "mode", .string "w")]) := by
    intro h
    obtain ⟨s, hs, heq⟩ := h.mode (.string "w") (.inl rfl)
    cases heq
    exact absurd hs (by decide)
  have hseconds : Http.Admissible (.ofNamed [(.string "timeout", .ofNat 5)]) := by
    constructor
    · constructor <;> simp [Args.Known, Args.Gives, Args.ofNamed, Entries.get?, Entries.isKey]
    · simp [Args.ofNamed, Entries.get?, Entries.isKey]
    · intro v hv
      cases hv
      exact ⟨.int 5, rfl, by norm_num [Number.Positive]⟩
  obtain ⟨hrefused, -, -, -⟩ := refused_before_access "a.yaml" (.ofNamed [(.string "mode", .string "w")])
  obtain ⟨-, -, -, hopened⟩ := refused_before_access "http://h/a.yaml" (.ofNamed [(.string "timeout", .ofNat 5)])
  refine ⟨hrefused hwriting, hopened hseconds ?_⟩
  intro v n hv hn
  cases hv
  cases hn
  norm_num [Number.Fits]

end OpenOptions
end Transclusion
