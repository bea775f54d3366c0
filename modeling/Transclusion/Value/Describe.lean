import Transclusion.Value.Basic
import Transclusion.Text.Quoted

/-!
# Values shown inside messages

* `Value.describe` : a value with the name of its kind, as error messages show it;
* `Value.kind` : the kind alone, with its article.
-/

namespace Transclusion
namespace Value

mutual

def describe : Value → String
  | .null => "Null"
  | .bool b => "Bool(" ++ toString b ++ ")"
  | .number n => "Number(" ++ n.text ++ ")"
  | .string s => "String(" ++ Text.quoted s ++ ")"
  | .sequence items => "Sequence [" ++ ", ".intercalate (describeAll items) ++ "]"
  | .mapping entries => "Mapping \x7b" ++ ", ".intercalate (describeEntries entries) ++ "\x7d"
  | .tagged t v => "TaggedValue \x7b tag: " ++ t.text ++ ", value: " ++ describe v ++ " \x7d"

/-- A key: text, numbers and booleans are shown bare. -/
def describeKey : Value → String
  | .string s => Text.quoted s
  | .bool b => toString b
  | .number n => n.text
  | .null => "Null"
  | .sequence items => "Sequence [" ++ ", ".intercalate (describeAll items) ++ "]"
  | .mapping entries => "Mapping \x7b" ++ ", ".intercalate (describeEntries entries) ++ "\x7d"
  | .tagged t v => "TaggedValue \x7b tag: " ++ t.text ++ ", value: " ++ describe v ++ " \x7d"

def describeAll : List Value → List String
  | [] => []
  | v :: rest => describe v :: describeAll rest

def describeEntries : Entries → List String
  | [] => []
  | (k, v) :: rest => (describeKey k ++ ": " ++ describe v) :: describeEntries rest

end

def kind : Value → String
  | .null => "null"
  | .bool _ => "a boolean"
  | .number _ => "a number"
  | .string _ => "a string"
  | .sequence _ => "a sequence"
  | .mapping _ => "a mapping"
  | .tagged _ _ => "a tagged value"

end Value
end Transclusion
