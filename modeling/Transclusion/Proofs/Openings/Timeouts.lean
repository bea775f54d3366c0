import Transclusion.Proofs.Openings.Options
import Transclusion.Proofs.Values.Magnitudes

/-!
# Timeouts that no duration holds

A timeout may be any finite number above zero, and a duration has less than `2 ^ 64` seconds. A run that is given more
than that is cut off where the number is made a duration, after all options are checked and before anything is requested.

* `Duration.ofBinary64?_eq_none_iff` : the numbers of seconds that are no duration;
* `Value.Overlong`, `Http.GivesOverlong` : a number of seconds too large for a duration, as the timeout;
* `Run.Answers` : a run comes to a value or a fault; `Http.send_answers` : a request does;
* `Http.openOne_answers_iff` : an opening does unless its options are in order and its timeout is too large.
-/

namespace Transclusion

/-! ## Durations -/

theorem Binary64.isPositive_of_exceedsWord {x : Binary64} (hfinite : x.isFinite = true) (h : x.exceedsWord = true) :
    x.isPositive = true := by
  simp only [exceedsWord, hfinite, Bool.and_eq_true, Bool.not_true, Bool.false_or, decide_eq_true_eq] at h
  obtain ⟨⟨hsign, hnan⟩, hexponent⟩ := h
  have hzero : x.isZero = false := by
    rw [isZero, Bool.and_eq_false_iff]
    left
    rw [beq_eq_false_iff_ne]
    omega
  simp [isPositive, hsign, hzero, hnan]

/-- A finite number above zero is a duration of seconds unless it reaches `2 ^ 64`. -/
theorem Duration.ofBinary64?_eq_none_iff {x : Binary64} (hfinite : x.isFinite = true)
    (hpositive : x.isPositive = true) :
    ofBinary64? x = none ↔ x.exceedsWord = true := by
  unfold ofBinary64?
  rw [hfinite, hpositive]
  cases x.exceedsWord with
  | true => simp
  | false =>
    simp only [Bool.not_true, Bool.or_self, Bool.false_eq_true, if_false, iff_false]
    cases x.exponent <;> simp

/-! ## Timeouts -/

/-- A finite number of seconds that is rounded to `2 ^ 64` or more. -/
def Value.Overlong (v : Value) : Prop :=
  ∃ n, v.number? = some n ∧ n.toBinary64.isFinite = true ∧ 2 ^ 64 - 2 ^ 10 ≤ n.value

namespace Http

variable {settings : Settings} {path : String} {args : Args} {v : Value} {x : Binary64}

def GivesOverlong (args : Args) : Prop := ∃ v, Entries.get? "timeout" args.named = some v ∧ v.Overlong

theorem seconds?_eq_some_iff : seconds? v = some x ↔
    ∃ n, v.number? = some n ∧ n.toBinary64 = x ∧ x.isFinite = true ∧ x.isPositive = true := by
  unfold seconds?
  rw [Option.filter_eq_some_iff, Option.map_eq_some_iff, Bool.and_eq_true]
  constructor
  · rintro ⟨⟨n, hn, hx⟩, hfinite, hpositive⟩
    exact ⟨n, hn, hx, hfinite, hpositive⟩
  · rintro ⟨n, hn, hx, hfinite, hpositive⟩
    exact ⟨⟨n, hn, hx⟩, hfinite, hpositive⟩

/-- Of the timeouts that are accepted, those are no durations that are too large. -/
theorem ofBinary64?_eq_none_iff_overlong (h : seconds? v = some x) :
    Duration.ofBinary64? x = none ↔ v.Overlong := by
  obtain ⟨n, hn, rfl, hfinite, hpositive⟩ := seconds?_eq_some_iff.mp h
  rw [Duration.ofBinary64?_eq_none_iff hfinite hpositive, Number.exceedsWord_iff hfinite]
  constructor
  · intro hle
    exact ⟨n, hn, hfinite, hle⟩
  · rintro ⟨n', hn', -, hle⟩
    rw [hn, Option.some_inj] at hn'
    rwa [hn']

theorem exists_seconds?_of_overlong (h : v.Overlong) : ∃ x, seconds? v = some x := by
  obtain ⟨n, hn, hfinite, hle⟩ := h
  have hpositive := Binary64.isPositive_of_exceedsWord hfinite ((Number.exceedsWord_iff hfinite).mpr hle)
  exact ⟨n.toBinary64, seconds?_eq_some_iff.mpr ⟨n, hn, rfl, hfinite, hpositive⟩⟩

theorem timeout_of_overlong (h : GivesOverlong args) : timeout settings args = .error .timeoutOverflow := by
  obtain ⟨v, hget, hoverlong⟩ := h
  obtain ⟨x, hx⟩ := exists_seconds?_of_overlong hoverlong
  simp [timeout, hget, hx, (ofBinary64?_eq_none_iff_overlong hx).mpr hoverlong]

theorem timeout_of_not_overlong (h : ¬ GivesOverlong args) :
    (∃ d, timeout settings args = .ok d) ∨ ∃ f, timeout settings args = .error (.fault f) := by
  unfold timeout
  cases hget : Entries.get? "timeout" args.named with
  | none => simp
  | some v =>
    cases hx : seconds? v with
    | none => simp [hx]
    | some x =>
      cases hd : Duration.ofBinary64? x with
      | none => exact absurd ⟨v, hget, (ofBinary64?_eq_none_iff_overlong hx).mp hd⟩ h
      | some d => simp [hx, hd]

end Http

/-! ## Runs that are not cut off -/

namespace Run

variable {σ α β : Type} {r : Run (StateM σ) α} {f : α → Run (StateM σ) β} {s : σ}

def Answers (r : Run (StateM σ) α) (s : σ) : Prop :=
  ∃ s', (∃ a, r.Ends s (.ok a) s') ∨ ∃ e, r.Ends s (.error (.fault e)) s'

theorem Answers.pure (a : α) : (pure a : Run (StateM σ) α).Answers s := ⟨s, .inl ⟨a, Ends.pure a s⟩⟩

theorem Answers.raise (e : Fault) : (raise e : Run (StateM σ) α).Answers s := ⟨s, .inr ⟨e, Ends.throw _ s⟩⟩

theorem Answers.ofExcept (x : Except Fault α) : (ofExcept x : Run (StateM σ) α).Answers s := by
  cases x with
  | error e => exact .raise e
  | ok a => exact .pure a

theorem Answers.lift (c : StateM σ α) : (liftM c : Run (StateM σ) α).Answers s := ⟨_, .inl ⟨_, Ends.lift c s⟩⟩

theorem Answers.bind (hr : r.Answers s) (hf : ∀ a s', (f a).Answers s') : (r >>= f).Answers s := by
  obtain ⟨s₁, ⟨a, ha⟩ | ⟨e, he⟩⟩ := hr
  · obtain ⟨s', ⟨b, hb⟩ | ⟨e, he⟩⟩ := hf a s₁
    · exact ⟨s', .inl ⟨b, ha.bind hb⟩⟩
    · exact ⟨s', .inr ⟨e, ha.bind he⟩⟩
  · exact ⟨s₁, .inr ⟨e, he.bind_error⟩⟩

theorem not_answers_of_cut {s' : σ} (h : r.Ends s (.error .timeoutOverflow) s') : ¬ r.Answers s := by
  rintro ⟨t, ⟨a, ha⟩ | ⟨e, he⟩⟩
  · cases (h.unique ha).1
  · cases (h.unique he).1

end Run

/-! ## Openings -/

namespace Http

variable {σ : Type} {web : Web (StateM σ)} {settings : Settings} {path : String} {args : Args} {s : σ}

theorem send_answers (shown : String) (request : Except HttpFault Request) : (send web shown request).Answers s := by
  cases request with
  | error f => exact .raise _
  | ok r =>
    apply Run.Answers.bind
    · exact .lift _
    intro answer s'
    cases answer with
    | error f => exact .raise _
    | ok answer =>
      dsimp only
      split
      · exact .raise _
      · split
        · exact .pure _
        · exact .raise _

/-- Only the timeout cuts an opening off. -/
theorem openOne_answers_of_timeout
    (h : (∃ d, timeout settings args = .ok d) ∨ ∃ f, timeout settings args = .error (.fault f)) :
    (openOne web settings path args).Answers s := by
  unfold openOne
  apply Run.Answers.bind
  · exact .ofExcept _
  intro c s₁
  apply Run.Answers.bind
  · exact .ofExcept _
  intro own s₂
  apply Run.Answers.bind
  · rcases h with ⟨d, hd⟩ | ⟨f, hf⟩
    · rw [hd]
      exact .pure d
    · rw [hf]
      exact .raise f
  intro d s₃
  apply Run.Answers.bind
  · exact send_answers path _
  intro content s₄
  exact .pure _

/-- Where all options are in order and the timeout is too large, the run is cut off before anything is requested. -/
theorem openOne_cut (h : Admissible args) (hoverlong : GivesOverlong args) :
    (openOne web settings path args).Ends s (.error .timeoutOverflow) s := by
  rcases OpenOptions.decides_check path args openKeys with ⟨-, c, hcheck⟩ | ⟨hnot, -⟩
  swap
  · exact absurd h.toAdmissible hnot
  rcases decides_headers path args with ⟨-, own, hown⟩ | ⟨hnot, -⟩
  swap
  · exact absurd h.headers hnot
  unfold openOne
  rw [hcheck, hown, timeout_of_overlong hoverlong]
  exact (Run.Ends.pure c s).bind ((Run.Ends.pure own s).bind (Run.Ends.throw _ s).bind_error)

/-- **A timeout that is accepted may be no duration.** A finite number above zero is accepted, and it is a duration
unless it is rounded to `2 ^ 64` or more. An opening comes to a value or a fault for all arguments but those that are in
order and give such a timeout; with these it is cut off, nothing was requested, and nothing comes after it. -/
theorem openOne_answers_iff {σ : Type} (web : Web (StateM σ)) (settings : Settings) (path : String) (args : Args)
    (s : σ) :
    (∀ v x, seconds? v = some x → (Duration.ofBinary64? x = none ↔ v.Overlong)) ∧
    ((openOne web settings path args).Answers s ↔ ¬ (Admissible args ∧ GivesOverlong args)) ∧
    ((openOne web settings path args).Ends s (.error .timeoutOverflow) s ↔ Admissible args ∧ GivesOverlong args) ∧
    (Admissible args → GivesOverlong args → ∀ {α : Type} (next : Except Fault Opened → Run (StateM σ) α),
      ((openOne web settings path args).answer >>= next).Ends s (.error .timeoutOverflow) s) := by
  have hanswers : ¬ (Admissible args ∧ GivesOverlong args) → (openOne web settings path args).Answers s := by
    intro h
    by_cases hoverlong : GivesOverlong args
    · obtain ⟨cause, hrefused⟩ := openOne_refused fun hall => h ⟨hall, hoverlong⟩
      rw [hrefused web settings]
      exact .raise _
    · exact openOne_answers_of_timeout (timeout_of_not_overlong hoverlong)
  refine ⟨fun v x => ofBinary64?_eq_none_iff_overlong, ⟨?_, hanswers⟩, ⟨?_, fun h => openOne_cut h.1 h.2⟩,
    fun hall hoverlong _ _ => ((openOne_cut hall hoverlong).answer_cut nofun).bind_error⟩
  · rintro h ⟨hall, hoverlong⟩
    exact Run.not_answers_of_cut (openOne_cut hall hoverlong) h
  · intro hcut
    by_contra h
    exact Run.not_answers_of_cut hcut (hanswers h)

theorem openOne_answers_iff_minute :
    (∃ d, Duration.ofBinary64? (Number.int 30).toBinary64 = some d) ∧
    (openOne (.unreachable : Web (StateM Unit)) {} "http://h/a.yaml"
      (.ofNamed [(.string "timeout", .ofNat 30)])).Answers () := by
  have hvalue : ¬ (Value.ofNat 30).Overlong := by
    rintro ⟨n, hn, -, hle⟩
    cases hn
    norm_num [Number.value] at hle
  obtain ⟨hduration, hanswers, -⟩ := openOne_answers_iff (.unreachable : Web (StateM Unit)) {} "http://h/a.yaml"
    (.ofNamed [(.string "timeout", .ofNat 30)]) ()
  constructor
  · have hseconds : seconds? (.ofNat 30) = some (Number.int 30).toBinary64 := by decide
    exact Option.ne_none_iff_exists'.mp fun hnone => hvalue ((hduration _ _ hseconds).mp hnone)
  · apply hanswers.mpr
    rintro ⟨-, v, hv, hoverlong⟩
    cases hv
    exact hvalue hoverlong

/-- The largest integer of 64 bits is accepted as a timeout. It is rounded to `2 ^ 64` seconds. -/
theorem openOne_cut_largest :
    (∃ x, seconds? (.ofNat (2 ^ 64 - 1)) = some x ∧ Duration.ofBinary64? x = none) ∧
    ¬ ∀ args : Args, (openOne (.unreachable : Web (StateM Unit)) {} "http://h/a.yaml" args).Answers () := by
  have hseconds : seconds? (.ofNat (2 ^ 64 - 1)) = some (Number.int (2 ^ 64 - 1)).toBinary64 := by decide
  have hnone : Duration.ofBinary64? (Number.int (2 ^ 64 - 1)).toBinary64 = none := by decide
  refine ⟨⟨_, hseconds, hnone⟩, fun h => ?_⟩
  have hcut : (openOne (.unreachable : Web (StateM Unit)) {} "http://h/a.yaml"
      (.ofNamed [(.string "timeout", .ofNat (2 ^ 64 - 1))])).Ends () (.error .timeoutOverflow) () := by rfl
  exact Run.not_answers_of_cut hcut (h _)

end Http
end Transclusion
