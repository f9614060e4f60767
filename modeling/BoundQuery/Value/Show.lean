import BoundQuery.Text.Pattern
import BoundQuery.Value.Basic

/-! Values as text. `Value.shown` makes the kind of every part recognisable and is used in
messages; `Value.text` is what stands in SQL for a name or a literal. -/
namespace BoundQuery

mutual

def Value.shown : Value → String
  | .null => "None"
  | .bool b => if b then "True" else "False"
  | .int n => toString n
  | .real x => x.text
  | .str s => Text.quoted s
  | .bytes bs => Text.quotedBytes bs
  | .list items => "[" ++ ", ".intercalate (shownItems items) ++ "]"
  | .tuple items =>
    match shownItems items with
    | [item] => "(" ++ item ++ ",)"
    | shown => "(" ++ ", ".intercalate shown ++ ")"
  | .map entries => "\x7b" ++ ", ".intercalate (shownEntries entries) ++ "\x7d"
  | .pattern source => Text.shownPattern source
  | .foreign object => object.shown
  | .subquery ref => ref.label
  | .record model fields => model.name ++ "(" ++ ", ".intercalate (shownFields fields) ++ ")"

def shownItems : List Value → List String
  | [] => []
  | item :: items => item.shown :: shownItems items

def shownEntries : List (Value × Value) → List String
  | [] => []
  | (key, value) :: entries => (key.shown ++ ": " ++ value.shown) :: shownEntries entries

def shownFields : List (String × Value) → List String
  | [] => []
  | (name, value) :: fields => (name ++ "=" ++ value.shown) :: shownFields fields

end

/-- A text stands for itself, an object has a text of its own, and a record is told by its
fields; the others are shown. Integers are shown whatever their size: the limit on the digits of a
whole number (`WholeNumber.sizeLimit`) is not put on them. -/
def Value.text : Value → String
  | .str s => s
  | .foreign object => object.text
  | .record _ fields => " ".intercalate (shownFields fields)
  | v => v.shown

@[simp] theorem Value.text_str (s : String) : (Value.str s).text = s := rfl

end BoundQuery
