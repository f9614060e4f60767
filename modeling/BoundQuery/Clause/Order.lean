import BoundQuery.Value.Items

/-! The body of an ORDER BY. -/
namespace BoundQuery

/-- A text that is taken as it is, or fields with their directions. -/
inductive Order where
  | text (s : String)
  | fields (entries : Entries)

namespace Order

def toValue : Order → Value
  | text s => .str s
  | fields es => .map es

/-- Only minus one means downwards. -/
def direction (v : Value) : String := if v.isNumber (-1) then "DESC" else "ASC"

def clause : Order → String
  | text s => s
  | fields es => ", ".intercalate (es.map fun e => e.1.text ++ " " ++ direction e.2)

def ofValue? : Value → Option Order
  | .str s => some (text s)
  | .map es => some (fields es)
  | _ => none

/-- The body for a value, of which nothing gives no order. -/
def clauseOf : Value → Except Error String
  | .null => .ok ""
  | v =>
    match ofValue? v with
    | some order => .ok order.clause
    | none => .error .unfit

end Order

end BoundQuery
