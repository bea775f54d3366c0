/-!
# Wildcard patterns

* `Glob.Piece` : what a pattern is made of; `Glob.compile` reads one from its text;
* `Glob.Fault` : why a text is no pattern, with the place in it;
* `Glob.accepts` : a text is matched in full; only `**` and literal slashes reach over a slash.
-/

namespace Transclusion.Glob

structure Range where
  first : Char
  last : Char
  deriving DecidableEq

inductive Piece where
  | char (c : Char)
  | anyChar
  /-- Any run of characters other than the slash. -/
  | run
  /-- Any run of whole path components, slashes included. -/
  | deep
  | within (rs : List Range)
  | without (rs : List Range)
  deriving DecidableEq

inductive FaultKind where
  | tooManyStars
  | notOneComponent
  | bracket
  deriving DecidableEq

structure Fault where
  position : Nat
  kind : FaultKind
  deriving DecidableEq

def FaultKind.message : FaultKind → String
  | .tooManyStars => "wildcards are either regular `*` or recursive `**`"
  | .notOneComponent => "recursive wildcards must form a single path component"
  | .bracket => "invalid range pattern"

def Fault.message (f : Fault) : String :=
  "Pattern syntax error near position " ++ toString f.position ++ ": " ++ f.kind.message

/-! ## Reading a pattern -/

def ranges : List Char → List Range
  | a :: '-' :: b :: rest => ⟨a, b⟩ :: ranges rest
  | a :: rest => ⟨a, a⟩ :: ranges rest
  | [] => []

/-- The characters up to the next closing bracket, and what follows it. -/
def toBracket : List Char → Option (List Char × List Char)
  | [] => none
  | c :: rest => if c = ']' then some ([], rest) else (toBracket rest).map fun p => (c :: p.1, p.2)

/-- A bracket after its opening; its first character is never the closing one. -/
def bracket (cs : List Char) : Option (Piece × List Char) :=
  match cs with
  | '!' :: c :: rest => (toBracket rest).map fun p => (.without (ranges (c :: p.1)), p.2)
  | '!' :: [] => none
  | c :: rest => (toBracket rest).map fun p => (.within (ranges (c :: p.1)), p.2)
  | [] => none

/-- The last two pieces are there and the last is `**`. -/
def endsDeep (done : List Piece) : Bool :=
  match done with
  | .deep :: _ :: _ => true
  | _ => false

theorem toBracket_length {cs a b : List Char} (h : toBracket cs = some (a, b)) : b.length < cs.length := by
  induction cs generalizing a with
  | nil => simp [toBracket] at h
  | cons c rest ih =>
    by_cases hc : c = ']'
    · simp only [toBracket, hc, ↓reduceIte, Option.some.injEq, Prod.mk.injEq] at h
      simp [← h.2]
    · simp only [toBracket, hc, ↓reduceIte, Option.map_eq_some_iff, Prod.mk.injEq, Prod.exists] at h
      obtain ⟨x, y, hxy, _, rfl⟩ := h
      have := ih hxy
      simp only [List.length_cons]
      omega

theorem bracket_length {cs : List Char} {p : Piece} {rest : List Char} (h : bracket cs = some (p, rest)) :
    rest.length < cs.length := by
  unfold bracket at h
  split at h
  · simp only [Option.map_eq_some_iff, Prod.mk.injEq, Prod.exists] at h
    obtain ⟨x, y, hxy, _, rfl⟩ := h
    have := toBracket_length hxy
    simp only [List.length_cons]; omega
  · simp at h
  · simp only [Option.map_eq_some_iff, Prod.mk.injEq, Prod.exists] at h
    obtain ⟨x, y, hxy, _, rfl⟩ := h
    have := toBracket_length hxy
    simp only [List.length_cons]; omega
  · simp at h

/-- The pieces of a pattern, read from place `i` on. `before` is the character before it and
`done` holds the pieces so far, newest first. -/
def compileFrom (i : Nat) (before : Option Char) (done : List Piece) (cs : List Char) :
    Except Fault (List Piece) :=
  match cs with
  | [] => .ok done.reverse
  | '?' :: rest => compileFrom (i + 1) (some '?') (.anyChar :: done) rest
  | '*' :: '*' :: '*' :: _ => .error ⟨i + 2, .tooManyStars⟩
  | '*' :: '*' :: rest =>
    if before.all (· == '/') then
      let done' := if endsDeep done then done else .deep :: done
      match rest with
      | [] => .ok done'.reverse
      | '/' :: rest => compileFrom (i + 3) (some '/') done' rest
      | _ => .error ⟨i + 2, .notOneComponent⟩
    else .error ⟨i - 1, .notOneComponent⟩
  | '*' :: rest => compileFrom (i + 1) (some '*') (.run :: done) rest
  | '[' :: rest =>
    match h : bracket rest with
    | some (p, rest') => compileFrom (i + 1 + (rest.length - rest'.length)) (some ']') (p :: done) rest'
    | none => .error ⟨i, .bracket⟩
  | c :: rest => compileFrom (i + 1) (some c) (.char c :: done) rest
termination_by cs.length
decreasing_by
  all_goals simp only [List.length_cons]
  all_goals first
    | omega
    | (have hb := bracket_length h; omega)

def compile (pattern : String) : Except Fault (List Piece) := compileFrom 0 none [] pattern.toList

/-! ## Matching -/

def inRanges (rs : List Range) (c : Char) : Bool := rs.any fun r => r.first ≤ c && c ≤ r.last

/-- What a piece for one character accepts. -/
def Piece.takes : Piece → Char → Bool
  | .char x, c => c == x
  | .anyChar, c => c != '/'
  | .within rs, c => c != '/' && inRanges rs c
  | .without rs, c => c != '/' && !inRanges rs c
  | .run, _ => false
  | .deep, _ => false

/-- The rest matches after some run of characters other than the slash. -/
def afterRun (rest : List Char → Bool) : List Char → Bool
  | [] => rest []
  | c :: cs => rest (c :: cs) || (c != '/' && afterRun rest cs)

def afterSlash (rest : List Char → Bool) : List Char → Bool
  | [] => false
  | c :: cs => (c == '/' && rest cs) || afterSlash rest cs

/-- A text is matched in full. At the end of a pattern `**` takes all that is left. -/
def accepts : List Piece → List Char → Bool
  | [], cs => cs.isEmpty
  | .run :: ps, cs => afterRun (accepts ps) cs
  | .deep :: ps, cs => accepts ps cs || afterSlash (accepts ps) cs || accepts ps []
  | p :: ps, c :: cs => p.takes c && accepts ps cs
  | _ :: _, [] => false

structure Matcher where
  text : String
  pieces : List Piece

def Matcher.ofText (pattern : String) : Except Fault Matcher :=
  (compile pattern).map fun pieces => ⟨pattern, pieces⟩

def Matcher.accepts (m : Matcher) (path : String) : Bool := Glob.accepts m.pieces path.toList

end Transclusion.Glob
