import Transclusion.Text.Cut

/-!
# Lines

* `lines` : the lines of a text, without the line feed or carriage return and line feed at their
  ends; nothing follows a last line feed.
-/

namespace Transclusion.Text

/-- A line without one carriage return at its end. -/
def dropReturn (cs : List Char) : List Char :=
  if cs.getLast? == some '\r' then cs.dropLast else cs

/-- The lines of a text. A carriage return at the very end, with no line feed after it, stays. -/
def lines (cs : List Char) : List (List Char) :=
  let pieces := splitOn '\n' cs
  let ended := pieces.dropLast.map dropReturn
  match pieces.getLast? with
  | some last => if last.isEmpty then ended else ended ++ [last]
  | none => ended

end Transclusion.Text
