import Transclusion.Glob.Root
import Transclusion.Proofs.Results

/-!
# Depth limits from a parameter to the listing

A limit is read twice: when the parameter of an include is looked at, and again when the directory is listed with the
arguments that came of it.

* `depth_depthValue` : the second reading gives what the first gave;
* `Glob.limitOfArgs_eq_ok_iff` : the arguments that a listing takes, and its limit;
* `Listing.stated` : the limit that a parameter states;
* `Plan.limit_of_spellings` : the listing has this limit, in whichever way it is spelled.
-/

namespace Transclusion

theorem depth_depthValue (limit : Option Nat) : depth (depthValue limit) = .ok limit := by
  cases limit with
  | none => rfl
  | some n => simp [depthValue, Value.ofNat, depth, Number.natural?]

namespace Entries

theorem get?_modify (key : String) (f : Value → Value) (es : Entries) :
    get? key (modify key f es) = (get? key es).map f := by
  induction es with
  | nil => rfl
  | cons e rest ih =>
    by_cases hkey : isKey key e.1 = true
    · simp [modify, get?, hkey]
    · simp [modify, get?, hkey, ih]

end Entries

/-! ## Arguments of a listing -/

namespace Args

/-- No name but that of the limit, and at most one position. -/
structure OnlyDepth (a : Args) : Prop where
  named : ∀ e ∈ a.named, e.1 = .string depthKey
  positional : a.positional.length ≤ 1

def limit (a : Args) : Except Fault (Option Nat) :=
  match a.get? depthKey 0 with
  | some v => depth v
  | none => .ok none

theorem onlyDepth_ofNamed (v : Value) : (ofNamed [(.string depthKey, v)]).OnlyDepth :=
  ⟨by simp [ofNamed], Nat.zero_le 1⟩

theorem onlyDepth_ofPositional (v : Value) : (ofPositional [v]).OnlyDepth :=
  ⟨by simp [ofPositional], Nat.le_refl 1⟩

theorem unknownKeys_eq_nil_iff {a : Args} {key : String} :
    a.unknownKeys [key] = [] ↔ ∀ e ∈ a.named, e.1 = .string key := by
  have hone : ∀ k : Value, unknownKey? [key] k = none ↔ k = .string key := by
    intro k
    cases k <;> simp [unknownKey?]
  simp [unknownKeys, List.filterMap_eq_nil_iff, hone]

end Args

theorem Glob.limitOfArgs_eq_ok_iff {pattern : String} {args : Args} {limit : Option Nat} :
    limitOfArgs pattern args = .ok limit ↔ args.OnlyDepth ∧ args.limit = .ok limit := by
  unfold limitOfArgs
  by_cases hnamed : ∀ e ∈ args.named, e.1 = .string depthKey
  · rw [if_neg (by simp [Args.unknownKeys_eq_nil_iff.mpr hnamed])]
    by_cases hpositional : 1 < args.positional.length
    · have hmany : ¬ args.OnlyDepth := fun h => absurd h.positional (Nat.not_le.mpr hpositional)
      simp [hpositional, hmany]
    · rw [if_neg hpositional, Args.limit]
      exact (and_iff_right ⟨hnamed, Nat.not_lt.mp hpositional⟩).symm
  · have hother : ¬ args.OnlyDepth := fun h => hnamed h.named
    have hunknown : args.unknownKeys [depthKey] ≠ [] := fun h => hnamed (Args.unknownKeys_eq_nil_iff.mp h)
    simp [hunknown, hother]

/-! ## Parameters of a listing -/

namespace Listing

def depthPart : Option Value → Option Value
  | some (.mapping named) => Entries.get? depthKey named
  | some (.sequence items) => items.head?
  | x => x

/-- The limit that a parameter states. What is no limit sets none. -/
def stated (x : Option Value) : Option Nat := (depthPart x).bind fun v => (depth v).toOption.join

variable {x : Option Value} {g : Listing} {v : Value} {limit : Option Nat}

theorem stated_of_depth (hv : depthPart x = some v) (h : depth v = .ok limit) : stated x = limit := by
  rw [stated, hv, Option.bind_some, h]
  rfl

theorem stated_of_none (h : depthPart x = none) : stated x = none := by
  rw [stated, h, Option.bind_none]

theorem stated_of_error {f : Fault} (hv : depthPart x = some v) (h : depth v = .error f) : stated x = none := by
  rw [stated, hv, Option.bind_some, h]
  rfl

theorem depthPart_scalar (hmapping : ∀ named, v ≠ .mapping named) (hsequence : ∀ items, v ≠ .sequence items) :
    depthPart (some v) = some v := by
  cases v with
  | mapping named => exact absurd rfl (hmapping named)
  | sequence items => exact absurd rfl (hsequence items)
  | _ => rfl

theorem limit_ofNamed (named : Entries) : (Args.ofNamed named).limit =
    match Entries.get? depthKey named with
    | some v => depth v
    | none => .ok none := by
  cases hget : Entries.get? depthKey named <;> simp [Args.limit, Args.get?, Args.ofNamed, hget]

/-- The three ways for a parameter to be read: nothing in it is about the limit, or that part of it is a limit, or it
is a scalar that is none. What is read again afterwards is this limit. -/
theorem ofValue_eq_ok (h : ofValue x = .ok g) :
    (depthPart x = none ∧ g.args.limit = .ok none) ∨
      (∃ v limit, depthPart x = some v ∧ depth v = .ok limit ∧ g.args.limit = .ok limit) ∨
        ∃ v f, x = some v ∧ depthPart x = some v ∧ depth v = .error f ∧ g.args.limit = .ok none := by
  unfold ofValue at h
  split at h
  · cases h
    exact .inl ⟨rfl, rfl⟩
  · cases h
    exact .inr (.inl ⟨.null, none, rfl, rfl, rfl⟩)
  · obtain ⟨named', hnamed, h⟩ := exists_of_bind_eq_ok h
    cases h
    rw [args, limit_ofNamed]
    unfold withDepth at hnamed
    split at hnamed
    · rename_i hnone
      cases hnamed
      exact .inl ⟨hnone, by rw [hnone]⟩
    · rename_i v hv
      obtain ⟨limit, hdepth, hnamed⟩ := exists_of_bind_eq_ok hnamed
      cases hnamed
      refine .inr (.inl ⟨v, limit, hv, hdepth, ?_⟩)
      rw [Entries.get?_modify, hv]
      exact depth_depthValue limit
  · cases h
    exact .inl ⟨rfl, rfl⟩
  · rename_i first rest
    obtain ⟨limit, hdepth, h⟩ := exists_of_bind_eq_ok h
    cases h
    exact .inr (.inl ⟨first, limit, rfl, hdepth, depth_depthValue limit⟩)
  · cases h
  · rename_i v _ hmapping hempty hcons _
    have hpart : depthPart (some v) = some v := by
      refine depthPart_scalar (fun named heq => hmapping named heq) fun items heq => ?_
      cases items with
      | nil => exact hempty heq
      | cons first rest => exact hcons first rest heq
    split at h
    · rename_i limit hdepth
      cases h
      exact .inr (.inl ⟨v, limit, hpart, hdepth, depth_depthValue limit⟩)
    · rename_i f hdepth
      cases h
      exact .inr (.inr ⟨v, f, rfl, hpart, hdepth, rfl⟩)

theorem ofValue_named (h : depth v = .ok limit) :
    ofValue (some (.mapping [(.string depthKey, v)])) = .ok (.keyword [(.string depthKey, depthValue limit)]) := by
  have hget : Entries.get? depthKey [(.string depthKey, v)] = some v := rfl
  simp only [ofValue, withDepth, hget, h]
  rfl

theorem ofValue_first {rest : List Value} (h : depth v = .ok limit) :
    ofValue (some (.sequence (v :: rest))) = .ok (.positional (depthValue limit :: rest)) := by
  simp only [ofValue, h]
  rfl

/-- The second reading finds what the first one found. -/
theorem limit_args (h : ofValue x = .ok g) : g.args.limit = .ok (stated x) := by
  rcases ofValue_eq_ok h with ⟨hpart, hlimit⟩ | ⟨v, limit, hpart, hdepth, hlimit⟩ | ⟨v, f, -, hpart, hdepth, hlimit⟩
  · rw [hlimit, stated_of_none hpart]
  · rw [hlimit, stated_of_depth hpart hdepth]
  · rw [hlimit, stated_of_error hpart hdepth]

/-- In a mapping or a list the part that is about the limit is one. -/
theorem depth_of_depthPart (h : ofValue x = .ok g) (hv : depthPart x = some v) :
    depth v = .ok (stated x) ∨ x = some v ∧ stated x = none := by
  rcases ofValue_eq_ok h with ⟨hpart, -⟩ | ⟨w, limit, hpart, hdepth, -⟩ | ⟨w, f, hx, hpart, hdepth, -⟩
  · rw [hv] at hpart
    cases hpart
  · left
    rw [stated_of_depth hpart hdepth]
    rw [hv] at hpart
    cases hpart
    exact hdepth
  · right
    rw [stated_of_error hpart hdepth]
    rw [hv] at hpart
    cases hpart
    exact ⟨hx, rfl⟩

end Listing

namespace Plan

def limit (pattern : String) (positional : List Value) (named : Entries) : Except Fault (Option Nat) := do
  let plan ← ofParams positional named
  Glob.limitOfArgs pattern plan.listing.args

/-- A number, or a text that is this number between blanks. -/
inductive Numeral : Value → Nat → Prop
  | number (n : Nat) : Numeral (.ofNat n) n
  | text {s : String} {n : Nat} (h : wordOfText? (Text.trimChars s.toList) = some n) : Numeral (.string s) n

/-- The places for a limit among the parameters of an include: alone or first of a list, under a name or not. -/
def spellings (v : Value) : List (List Value × Entries) :=
  [([v], []),
    ([], [(.string "glob", v)]),
    ([], [(.string "glob", .mapping [(.string depthKey, v)])]),
    ([], [(.string "glob", .sequence [v])])]

theorem Numeral.depth {v : Value} {n : Nat} (h : Numeral v n) : Transclusion.depth v = .ok (some n) := by
  cases h with
  | number => exact depth_depthValue (some n)
  | text h => simp [Transclusion.depth, h]

theorem Numeral.ofValue {v : Value} {n : Nat} (h : Numeral v n) : Listing.ofValue (some v) = .ok (.limit (some n)) := by
  have hdepth := h.depth
  cases h with
  | number =>
    rw [Value.ofNat] at hdepth ⊢
    simp only [Listing.ofValue, hdepth]
  | text => simp only [Listing.ofValue, hdepth]

theorem Numeral.limitOfArgs {v x : Value} {n : Nat} (h : Numeral v n) (pattern : String)
    (hx : x = v ∨ x = .mapping [(.string depthKey, v)] ∨ x = .sequence [v]) :
    ∃ g, Listing.ofValue (some x) = .ok g ∧ Glob.limitOfArgs pattern g.args = .ok (some n) := by
  obtain ⟨g, hg, honly, hlimit⟩ : ∃ g, Listing.ofValue (some x) = .ok g ∧ g.args.OnlyDepth ∧
      g.args.limit = Transclusion.depth (depthValue (some n)) := by
    rcases hx with rfl | rfl | rfl
    · exact ⟨_, h.ofValue, Args.onlyDepth_ofNamed _, rfl⟩
    · exact ⟨_, Listing.ofValue_named h.depth, Args.onlyDepth_ofNamed _, rfl⟩
    · exact ⟨_, Listing.ofValue_first h.depth, Args.onlyDepth_ofPositional _, rfl⟩
  rw [depth_depthValue] at hlimit
  exact ⟨g, hg, Glob.limitOfArgs_eq_ok_iff.mpr ⟨honly, hlimit⟩⟩

theorem ofParams_listing {x : Value} {g : Listing} (hg : Listing.ofValue (some x) = .ok g) :
    ofParams [x] [] = .ok ⟨g, .standard⟩ ∧ ofParams [] [(.string "glob", x)] = .ok ⟨g, .standard⟩ := by
  have hname : Entries.get? "glob" [(.string "glob", x)] = some x := rfl
  constructor
  · simp only [ofParams, hg]
    rfl
  · simp only [ofParams, hname, hg]
    rfl

theorem limit_of_numeral {v : Value} {n : Nat} (h : Numeral v n) (pattern : String) :
    ∀ p ∈ spellings v, limit pattern p.1 p.2 = .ok (some n) := by
  obtain ⟨alone, halone, hlimit₁⟩ := h.limitOfArgs pattern (.inl rfl)
  obtain ⟨named, hnamed, hlimit₂⟩ := h.limitOfArgs pattern (.inr (.inl rfl))
  obtain ⟨listed, hlisted, hlimit₃⟩ := h.limitOfArgs pattern (.inr (.inr rfl))
  intro p hp
  simp only [spellings, List.mem_cons, List.not_mem_nil, or_false] at hp
  rcases hp with rfl | rfl | rfl | rfl
  · rw [limit, (ofParams_listing halone).1]
    exact hlimit₁
  · rw [limit, (ofParams_listing halone).2]
    exact hlimit₁
  · rw [limit, (ofParams_listing hnamed).2]
    exact hlimit₂
  · rw [limit, (ofParams_listing hlisted).2]
    exact hlimit₃

/-- **A limit means the same in whichever way it is spelled.** A number or its text is the limit of the listing in each
place, and whatever else a parameter states is so too, if the listing has no other options: the two readings agree. -/
theorem limit_of_spellings (pattern : String) :
    (∀ v n, Numeral v n → ∀ p ∈ spellings v, limit pattern p.1 p.2 = .ok (some n)) ∧
      ∀ x g, Listing.ofValue x = .ok g →
        ((∃ limit, Glob.limitOfArgs pattern g.args = .ok limit) ↔ g.args.OnlyDepth) ∧
          (∀ limit, Glob.limitOfArgs pattern g.args = .ok limit → limit = Listing.stated x) ∧
          ∀ v, Listing.depthPart x = some v → depth v = .ok (Listing.stated x) ∨ x = some v ∧ Listing.stated x = none := by
  refine ⟨fun v n h => limit_of_numeral h pattern, fun x g h => ⟨?_, ?_, fun v => Listing.depth_of_depthPart h⟩⟩
  · simp only [Glob.limitOfArgs_eq_ok_iff, Listing.limit_args h]
    simp
  · intro limit hok
    have hlimit := (Glob.limitOfArgs_eq_ok_iff.mp hok).2
    rw [Listing.limit_args h] at hlimit
    cases hlimit
    rfl

/-- A padded text with a sign, and a limit that is read from its text a second time as a number. -/
theorem limit_of_spellings_padded :
    (∀ p ∈ spellings (.string " +007 "), Plan.limit "conf/**/*.yaml" p.1 p.2 = .ok (some 7)) ∧
      Glob.limitOfArgs "conf/**/*.yaml" (.ofNamed [(.string "maxdepth", .ofNat 2)]) = .ok (some 2) := by
  have hpadded : Numeral (.string " +007 ") 7 := .text (by decide +kernel)
  have htwo : depth (.string "2") = .ok (some 2) := Numeral.depth (.text (by decide +kernel))
  obtain ⟨hspelled, hread⟩ := limit_of_spellings "conf/**/*.yaml"
  obtain ⟨hok, hsame, -⟩ := hread _ _ (Listing.ofValue_named htwo)
  obtain ⟨limit, hlimit⟩ := hok.mpr (Args.onlyDepth_ofNamed _)
  have htext : limit = some 2 := (hsame limit hlimit).trans (Listing.stated_of_depth rfl htwo)
  exact ⟨hspelled _ 7 hpadded, htext ▸ hlimit⟩

end Plan
end Transclusion
