import Transclusion.Text.Quoted
import Transclusion.Value.Basic

/-!
# Writing JSON

* `Value.toJson` : a value as JSON text, one item a line.

A tagged value is an object whose only key is the tag. Keys that are numbers or booleans become
texts, and no other keys but texts can be written.
-/

namespace Transclusion
namespace Json

/-- JSON writes a sign before every exponent, and has no word for what is not finite. -/
def layout : Layout := ⟨-5, 16, true, "null", "null", "null"⟩

inductive KeyFault where
  | notText
  | notFinite
  deriving DecidableEq

def KeyFault.message : KeyFault → String
  | notText => "key must be a string"
  | notFinite => "float key must be finite (got NaN or +/-inf)"

def numbered (c : Char) : List Char :=
  let digits := Text.hexDigits c.toNat
  '\\' :: 'u' :: List.replicate (4 - digits.length) '0' ++ digits

def quotedChar (c : Char) : List Char :=
  match c with
  | '"' => ['\\', '"']
  | '\\' => ['\\', '\\']
  | '\n' => ['\\', 'n']
  | '\r' => ['\\', 'r']
  | '\t' => ['\\', 't']
  | '\x08' => ['\\', 'b']
  | '\x0c' => ['\\', 'f']
  | c => if c.toNat < 0x20 then numbered c else [c]

def quoted (s : String) : String := String.ofList ('"' :: s.toList.flatMap quotedChar ++ ['"'])

def boolText (b : Bool) : String := if b then "true" else "false"

def numberText : Number → String
  | .int n => toString n
  | .float x => layout.write x

def keyText : Value → Except KeyFault String
  | .string s => .ok s
  | .bool b => .ok (boolText b)
  | .number (.float x) => if x.isFinite then .ok (layout.write x) else .error .notFinite
  | .number n => .ok (numberText n)
  | _ => .error .notText

def indentation (level : Nat) : String := String.ofList (List.replicate (2 * level) ' ')

def block (level : Nat) (left right : String) (items : List String) : String :=
  if items.isEmpty then left ++ right
  else left ++ "\n" ++ ",\n".intercalate (items.map fun i => indentation (level + 1) ++ i)
    ++ "\n" ++ indentation level ++ right

def member (key text : String) : String := quoted key ++ ": " ++ text

mutual

/-- A value as it stands in a line that is indented `level` times. -/
def write (level : Nat) : Value → Except KeyFault String
  | .null => .ok "null"
  | .bool b => .ok (boolText b)
  | .number n => .ok (numberText n)
  | .string s => .ok (quoted s)
  | .sequence items => do return block level "[" "]" (← writeAll (level + 1) items)
  | .mapping es => do return block level "\x7b" "\x7d" (← writeEntries (level + 1) es)
  | .tagged tag v => do
    return block level "\x7b" "\x7d" [member tag.text (← write (level + 1) v)]

def writeAll (level : Nat) : List Value → Except KeyFault (List String)
  | [] => .ok []
  | v :: rest => do return (← write level v) :: (← writeAll level rest)

def writeEntries (level : Nat) : Entries → Except KeyFault (List String)
  | [] => .ok []
  | (k, v) :: rest => do
    let key ← keyText k
    return member key (← write level v) :: (← writeEntries level rest)

end

end Json

def Value.toJson (v : Value) : Except Json.KeyFault String := do return (← Json.write 0 v) ++ "\n"

end Transclusion
