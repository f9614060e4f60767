import BoundQuery.Error
import BoundQuery.Value.Key

/-! Values taken apart: what a value gives when it is gone through item by item, and the map
that a value can be read as. -/
namespace BoundQuery.Value

/-- A map gives its keys, a text its characters, bytes their numbers, a record its fields. -/
def items : Value → Except Error (List Value)
  | list items => .ok items
  | tuple items => .ok items
  | map entries => .ok (Entries.keys entries)
  | str s => .ok (s.toList.map fun c => str (String.singleton c))
  | bytes bs => .ok (bs.map fun b => int b.toNat)
  | record _ fields => .ok (Fields.toPairs fields)
  | _ => .error .unfit

/-- An item of two parts, of which the first can be a key. -/
def toPair (v : Value) : Except Error (Value × Value) := do
  match ← v.items with
  | [key, value] => if key.isKey then .ok (key, value) else .error .unfit
  | _ => .error .unfit

/-- A map is read as itself, anything else as its items, each of two parts. -/
def toEntries : Value → Except Error Entries
  | map entries => .ok entries
  | v => do return Entries.ofPairs (← (← v.items).mapM toPair)

/-- The texts, if every value is one. -/
def texts : List Value → Except Error (List String)
  | [] => .ok []
  | str s :: vs => do return s :: (← texts vs)
  | _ => .error .unfit

@[simp] theorem texts_map_str (ss : List String) : texts (ss.map str) = .ok ss := by
  induction ss with
  | nil => rfl
  | cons s ss ih =>
    simp only [List.map_cons, texts, ih]
    rfl

/-- Joins texts; a value that is no text cannot be joined. -/
def join (separator : String) (vs : List Value) : Except Error String := do
  return separator.intercalate (← texts vs)

@[simp] theorem join_map_str (separator : String) (ss : List String) :
    join separator (ss.map str) = .ok (separator.intercalate ss) := by
  rw [join, texts_map_str]
  rfl

end BoundQuery.Value
