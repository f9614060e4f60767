import BoundQuery.Decimal
import BoundQuery.Schema.Model
import BoundQuery.Text.Reference

/-! Document values: what filters, pipelines, documents and bound parameters are made of. A map
keeps its entries in the order they were given in, under keys that are values themselves. A
record is what was read by a model, and holds all fields of the model in their order. -/
namespace BoundQuery

/-- A sub-query used as a value: its number in the catalogue, and how it is shown. -/
structure SubQueryRef where
  id : Nat
  label : String
deriving DecidableEq, Inhabited

/-- An object of which nothing is known but its kind and how it is written. Its number tells it
from others that look alike. -/
structure Foreign where
  id : Nat
  kind : String
  shown : String
  text : String
deriving DecidableEq, Inhabited

inductive Value where
  | null
  | bool (b : Bool)
  | int (n : Int)
  | real (x : Decimal)
  | str (s : String)
  | bytes (bs : List UInt8)
  | list (items : List Value)
  | tuple (items : List Value)
  | map (entries : List (Value × Value))
  | pattern (source : String)
  | foreign (object : Foreign)
  | subquery (ref : SubQueryRef)
  | record (model : Model) (fields : List (String × Value))
deriving Inhabited

abbrev Entries := List (Value × Value)

namespace Value

/-- The kind of a value, as messages name it. -/
def kind : Value → String
  | null => "NoneType"
  | bool _ => "bool"
  | int _ => "int"
  | real _ => "float"
  | str _ => "str"
  | bytes _ => "bytes"
  | list _ => "list"
  | tuple _ => "tuple"
  | map _ => "dict"
  | pattern _ => "Pattern"
  | foreign object => object.kind
  | subquery _ => "SubQuery"
  | record model _ => model.name

/-- Nothing, zeros and what is empty are not truthy; all else is. -/
def truthy : Value → Bool
  | null => false
  | bool b => b
  | int n => n != 0
  | real x => !x.isZero
  | str s => s != ""
  | bytes bs => !bs.isEmpty
  | list items => !items.isEmpty
  | tuple items => !items.isEmpty
  | map entries => !entries.isEmpty
  | pattern _ => true
  | foreign _ => true
  | subquery _ => true
  | record _ _ => true

/-- The operator that a key names: a text with the mark in front. -/
def operator? : Value → Option String
  | str s => if Text.isMarked s then some s else none
  | _ => none

def isOperator (v : Value) : Bool := v.operator?.isSome

/-- The name after the mark of a reference. -/
def reference? : Value → Option String
  | str s => Text.afterMark? s
  | _ => none

/-- The items of a list or a tuple. -/
def sequence? : Value → Option (List Value)
  | list items => some items
  | tuple items => some items
  | _ => none

def entries? : Value → Option Entries
  | map entries => some entries
  | _ => none

def isSubquery : Value → Bool
  | subquery _ => true
  | _ => false

end Value

/-- A map whose keys are texts. -/
abbrev Fields := List (String × Value)

def Fields.toEntries (fields : Fields) : Entries := fields.map fun f => (.str f.1, f.2)

def Fields.toValue (fields : Fields) : Value := .map fields.toEntries

/-- The fields one by one, each as a pair of its name and its value. -/
def Fields.toPairs (fields : Fields) : List Value := fields.map fun f => .tuple [.str f.1, f.2]

end BoundQuery
