import Transclusion.Text.Hidden

/-!
# Quoted text

* `quotedChar` : one character inside double quotes;
* `quoted` : a text inside double quotes, with escapes for what has no shape of its own.
-/

namespace Transclusion.Text

def hexDigits (n : Nat) : List Char := Nat.toDigits 16 n

/-- One character of a quoted text: named escapes, then `\u{…}` for what has no shape. -/
def quotedChar (c : Char) : List Char :=
  match c with
  | '"' => ['\\', '"']
  | '\\' => ['\\', '\\']
  | '\n' => ['\\', 'n']
  | '\r' => ['\\', 'r']
  | '\t' => ['\\', 't']
  | _ =>
    if c.toNat == 0 then ['\\', '0']
    else if isHidden c then "\\u\x7b".toList ++ hexDigits c.toNat ++ "\x7d".toList
    else [c]

/-- A text between double quotes. -/
def quoted (s : String) : String :=
  String.ofList ('"' :: s.toList.flatMap quotedChar ++ ['"'])

theorem quotedChar_ne_nil (c : Char) : quotedChar c ≠ [] := by
  unfold quotedChar
  split <;> try simp
  split
  · simp
  · split <;> simp

end Transclusion.Text
