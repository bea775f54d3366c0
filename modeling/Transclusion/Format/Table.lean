import Transclusion.Format.Basic
import Transclusion.Regex.Engine

/-!
# Formats by file name

* `FormatTable` : expressions with formats, the last that matches a path deciding;
* `FormatTable.standard` : by the usual endings; `FormatTable.push` : a further row;
* `FormatTable.loader` : read included files in the format of their names.
-/

namespace Transclusion

/-- Expressions for paths, each with a format. -/
structure FormatTable (E : Regex.Engine) where
  rows : List (E.Expression × Format)

namespace FormatTable

variable {E : Regex.Engine}

def empty : FormatTable E := ⟨[]⟩

/-- Whole paths on one line, with the usual endings in any case. -/
def standardRules : List (String × Format) := [
  ("(?i)^.+\\.ya?ml$", .yaml),
  ("(?i)^.+\\.json$", .json),
  ("(?i)^.+\\.ini$", .ini),
  ("(?i)^.+\\.toml$", .toml),
  ("(?i)^.+\\.txt$", .plain)]

/-- The usual endings, as far as the engine takes their expressions. -/
def standard : FormatTable E :=
  ⟨standardRules.filterMap fun (text, f) => (E.read text).toOption.map (·, f)⟩

/-- A row after all others. Its expression is made to match from the start of a path. -/
def push (t : FormatTable E) (pattern : String) (f : Format) : Except Fault (FormatTable E) :=
  match E.read ("^(?:" ++ pattern ++ ")") with
  | .ok e => .ok ⟨t.rows ++ [(e, f)]⟩
  | .error _ => .error (.config (.rulePattern pattern))

/-- The format of a path: that of the last row that matches. -/
def format? (t : FormatTable E) (path : String) : Option Format :=
  (t.rows.reverse.find? fun row => E.finds row.1 path).map (·.2)

theorem push_eq_ok_iff {t t' : FormatTable E} {pattern : String} {f : Format} :
    t.push pattern f = .ok t' ↔
      ∃ e, E.read ("^(?:" ++ pattern ++ ")") = .ok e ∧ t' = ⟨t.rows ++ [(e, f)]⟩ := by
  unfold push
  split
  · rename_i e he
    simp [he, eq_comm]
  · rename_i he
    simp [he]

/-- The last row comes before all others. -/
theorem format?_concat (rows : List (E.Expression × Format)) (e : E.Expression) (f : Format) (path : String) :
    (mk (rows ++ [(e, f)])).format? path = if E.finds e path then some f else (mk rows).format? path := by
  unfold format?
  rw [List.reverse_append, List.reverse_singleton, List.singleton_append, List.find?_cons]
  cases E.finds e path <;> rfl

variable {m : Type → Type} [Monad m]

def loader (t : FormatTable E) : Loader m := fun parseText path content =>
  match t.format? path with
  | none => Run.raise (.unsupportedFormat path)
  | some f => do f.parse parseText path (← content.readAs path)

end FormatTable
end Transclusion
