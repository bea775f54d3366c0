import Transclusion.Text.Lower

/-!
# Letters that differ in case only

* `foldChar` : one character for all that differ in case only;
* `caseVariants` : the characters that fold to the same one.
-/

namespace Transclusion.Text

/-- Letters without an upper case of their own, and the letter that each of them is a form of. -/
def letterForms : List (Char × Char) := [
  ('µ', 'μ'), ('ſ', 's'), ('ς', 'σ'), ('ϐ', 'β'), ('ϑ', 'θ'), ('ϕ', 'φ'), ('ϖ', 'π'), ('ϰ', 'κ'),
  ('ϱ', 'ρ'), ('ϵ', 'ε'), ('ẛ', 'ṡ'), ('ι', 'ι'), (Char.ofNat 0x345, 'ι')]

/-- One character for all that differ in case only. -/
def foldChar (c : Char) : Char :=
  match letterForms.find? (·.1 == c) with
  | some (_, d) => d
  | none => lowerChar c

def caseVariants (c : Char) : List Char :=
  let f := foldChar c
  let upper := caseRuns.filterMap fun r =>
    let d := Char.ofNat ((f.toNat : Int) - r.shift).toNat
    if r.covers d then some d else none
  let forms := (letterForms.filter (·.2 == f)).map (·.1)
  c :: f :: f.toUpper :: upper ++ forms

end Transclusion.Text
