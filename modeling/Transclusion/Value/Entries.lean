import Transclusion.Value.Basic

/-!
# Mappings

* `Entries.find?` : the value under a key; `Entries.get?` : under a plain text key;
* `Entries.insert` : a key that is already there keeps its place and takes the new value;
* `Entries.ofPairs` : insert pairs one after the other.
-/

namespace Transclusion
namespace Entries

def find? (key : Value) : Entries → Option Value
  | [] => none
  | (k, v) :: rest => if key.same k then some v else find? key rest

/-- A key is the plain text `key`. -/
def isKey (key : String) : Value → Bool
  | .string s => s == key
  | _ => false

def get? (key : String) : Entries → Option Value
  | [] => none
  | (k, v) :: rest => if isKey key k then some v else get? key rest

/-- Replace the value under a plain text key by a function of it. -/
def modify (key : String) (f : Value → Value) : Entries → Entries
  | [] => []
  | (k, v) :: rest => if isKey key k then (k, f v) :: rest else (k, v) :: modify key f rest

def insert (es : Entries) (key value : Value) : Entries :=
  match es with
  | [] => [(key, value)]
  | (k, v) :: rest => if key.same k then (k, value) :: rest else (k, v) :: insert rest key value

def ofPairs (pairs : List (Value × Value)) : Entries :=
  pairs.foldl (fun es p => insert es p.1 p.2) []

/-- Insert every pair of the second list into the first. -/
def extend (es : Entries) (pairs : List (Value × Value)) : Entries :=
  pairs.foldl (fun es p => insert es p.1 p.2) es

def hasKey (key : Value) : Entries → Bool
  | [] => false
  | (k, _) :: rest => key.same k || hasKey key rest

/-- No key is the same as one before it. -/
def Distinct (es : Entries) : Prop :=
  List.Pairwise (fun earlier later => later.1.same earlier.1 = false) es

theorem get?_nil (key : String) : get? key [] = none := rfl

theorem insert_nil (k v : Value) : insert [] k v = [(k, v)] := rfl

/-- A new key goes to the end. -/
theorem insert_of_not_hasKey {es : Entries} {k : Value} (h : hasKey k es = false) (v : Value) :
    insert es k v = es ++ [(k, v)] := by
  induction es with
  | nil => rfl
  | cons e rest ih =>
    simp only [hasKey, Bool.or_eq_false_iff] at h
    simp [insert, h.1, ih h.2]

/-- Inserting leaves as many entries, or one more. -/
theorem length_insert (es : Entries) (k v : Value) :
    (insert es k v).length = if hasKey k es then es.length else es.length + 1 := by
  induction es with
  | nil => rfl
  | cons e rest ih =>
    by_cases h : k.same e.1 = true
    · simp [insert, hasKey, h]
    · simp only [insert, hasKey, h, Bool.false_or, List.length_cons]
      simp only [Bool.false_eq_true, ↓reduceIte, List.length_cons, ih]
      split <;> rfl

end Entries
end Transclusion
