import Transclusion.Regex.Reading

/-!
# Engines for regular expressions

* `Regex.Engine` : what reads expressions and looks for them in texts;
* `Regex.engine` : by the reader and the matcher at hand.

What an engine takes for an expression, and how large an expression may be, differs from one to the next. What is said
about tables of formats is said for every engine.
-/

namespace Transclusion
namespace Regex

inductive Refusal where
  /-- It is no expression. -/
  | malformed
  /-- It is an expression, but larger or nested deeper than is allowed. -/
  | tooLarge
  deriving DecidableEq

structure Engine where
  Expression : Type
  read : String → Except Refusal Expression
  /-- The expression matches some part of the text. -/
  finds : Expression → String → Bool

/-- The reader and the matcher at hand. Of the names that properties of characters have, the reader knows the common
ones only, and what is too large for it is no expression to it. -/
def engine : Engine where
  Expression := Regex
  read text := match ofText? text with
    | some r => .ok r
    | none => .error .malformed
  finds := Regex.finds

end Regex
end Transclusion
