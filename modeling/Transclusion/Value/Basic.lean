import Transclusion.Decimal.Layout

/-!
# Document values

* `Number`, `Tag`, `Value` : what a document is made of; a mapping keeps its entries in order;
* `Tag.bare`, `Tag.text`, `Tag.same` : a tag's name with or without its mark;
* `Value.same` : equality of values, where the order of a mapping's entries does not count;
* `Value.untagged` and the views `text?`, `truth?`, `number?` that look through tags;
* `Value.size` : the number of nodes.
-/

namespace Transclusion

/-! ## Numbers -/

inductive Number where
  | int (n : Int)
  | float (x : Binary64)
  deriving DecidableEq, Inhabited

namespace Number

/-- Documents write a double in positional notation up to 16 digits before the point. -/
def layout : Layout := ⟨-5, 16, false, ".nan", ".inf", "-.inf"⟩

def text : Number → String
  | .int n => toString n
  | .float x => layout.write x

/-- The same number; an integer is never the same as a double. -/
def same : Number → Number → Bool
  | .int m, .int n => m == n
  | .float x, .float y => x.sameNumber y
  | _, _ => false

def toBinary64 : Number → Binary64
  | .int n => .ofInt n
  | .float x => x

def natural? : Number → Option Nat
  | .int n => if 0 ≤ n then some n.toNat else none
  | .float _ => none

theorem same_refl (n : Number) : n.same n = true := by
  cases n <;> simp [same, Binary64.sameNumber_refl]

end Number

/-! ## Tags -/

/-- The name of a tag, as stored: one leading mark may or may not be part of it. -/
structure Tag where
  name : String
  deriving DecidableEq, Inhabited

namespace Tag

/-- The name without one leading mark, unless nothing else is left. -/
def bareChars : List Char → List Char
  | ['!'] => ['!']
  | '!' :: rest => rest
  | cs => cs

def bare (t : Tag) : String := String.ofList (bareChars t.name.toList)

def text (t : Tag) : String := "!" ++ t.bare

/-- Tags are compared without one leading mark. -/
def same (s t : Tag) : Bool := s.bare == t.bare

theorem same_refl (t : Tag) : t.same t = true := by simp [same]

theorem same_comm (s t : Tag) : s.same t = t.same s := by simp [same, Bool.beq_comm]

theorem same_iff {s t : Tag} : s.same t = true ↔ s.bare = t.bare := by simp [same]

end Tag

/-! ## Values -/

inductive Value where
  | null
  | bool (b : Bool)
  | number (n : Number)
  | string (s : String)
  | sequence (items : List Value)
  | mapping (entries : List (Value × Value))
  | tagged (tag : Tag) (value : Value)
  deriving Inhabited

/-- The entries of a mapping, in order. -/
abbrev Entries := List (Value × Value)

namespace Value

def ofNat (n : Nat) : Value := .number (.int n)

def ofInt (n : Int) : Value := .number (.int n)

mutual

def size : Value → Nat
  | .sequence items => 1 + sizeAll items
  | .mapping entries => 1 + sizeEntries entries
  | .tagged _ v => 1 + size v
  | _ => 1

def sizeAll : List Value → Nat
  | [] => 0
  | v :: rest => size v + sizeAll rest

def sizeEntries : Entries → Nat
  | [] => 0
  | (k, v) :: rest => size k + size v + sizeEntries rest

end

mutual

/-- Equality of values: two mappings are the same when they have as many entries and each entry
of one is an entry of the other. -/
def same : Value → Value → Bool
  | .null, .null => true
  | .bool a, .bool b => a == b
  | .number a, .number b => a.same b
  | .string a, .string b => a == b
  | .sequence a, .sequence b => sameAll a b
  | .mapping a, .mapping b => a.length == b.length && within a b
  | .tagged s v, .tagged t w => s.same t && same v w
  | _, _ => false

def sameAll : List Value → List Value → Bool
  | [], [] => true
  | v :: vs, w :: ws => same v w && sameAll vs ws
  | _, _ => false

/-- Every entry of the first is an entry of the second. -/
def within : Entries → Entries → Bool
  | [], _ => true
  | (k, v) :: rest, es => es.any (fun e => same k e.1 && same v e.2) && within rest es

end

instance : BEq Value := ⟨same⟩

/-! ## Views -/

def untagged : Value → Value
  | .tagged _ v => untagged v
  | v => v

/-- The text of a string, tagged or not. -/
def text? (v : Value) : Option String :=
  match v.untagged with
  | .string s => some s
  | _ => none

/-- The truth value of a boolean, tagged or not. -/
def truth? (v : Value) : Option Bool :=
  match v.untagged with
  | .bool b => some b
  | _ => none

def number? (v : Value) : Option Number :=
  match v.untagged with
  | .number n => some n
  | _ => none

@[simp] theorem untagged_tagged (t : Tag) (v : Value) : (tagged t v).untagged = v.untagged := by
  rw [untagged]

@[simp] theorem text?_string (s : String) : (string s).text? = some s := rfl

@[simp] theorem text?_tagged (t : Tag) (v : Value) : (tagged t v).text? = v.text? := by
  simp [text?]

@[simp] theorem truth?_tagged (t : Tag) (v : Value) : (tagged t v).truth? = v.truth? := by
  simp [truth?]

theorem size_pos (v : Value) : 0 < v.size := by
  cases v with
  | sequence items => exact Nat.lt_of_lt_of_eq (Nat.lt_add_right _ Nat.one_pos) (by rw [size])
  | mapping entries => exact Nat.lt_of_lt_of_eq (Nat.lt_add_right _ Nat.one_pos) (by rw [size])
  | tagged t v => exact Nat.lt_of_lt_of_eq (Nat.lt_add_right _ Nat.one_pos) (by rw [size])
  | _ => simp [size]

end Value
end Transclusion
