import BoundQuery.Error

/-! JSON text of values, without blanks and with every character above ASCII as it is. Tuples
are written as arrays, and a value that JSON has no form for as the text it stands for. -/
namespace BoundQuery

namespace Json

def escaped (c : Char) : List Char :=
  if c == '"' || c == '\\' then ['\\', c]
  else if c == '\n' then ['\\', 'n']
  else if c == '\r' then ['\\', 'r']
  else if c == '\t' then ['\\', 't']
  else if c == '\x08' then ['\\', 'b']
  else if c == '\x0c' then ['\\', 'f']
  else if c.toNat < 32 then '\\' :: 'u' :: Text.hexDigits 4 c.toNat
  else [c]

def string (s : String) : String :=
  String.ofList ('"' :: (s.toList.flatMap escaped ++ ['"']))

def number (x : Decimal) : String :=
  match x with
  | .nan _ => "NaN"
  | .infinite negative => Decimal.sign negative ++ "Infinity"
  | x => x.text

def bool (b : Bool) : String := if b then "true" else "false"

/-- The text of a key. -/
def key : Value → Except Error String
  | .null => .ok "null"
  | .bool b => .ok (bool b)
  | .int n => .ok (toString n)
  | .real x => .ok (number x)
  | .str s => .ok s
  | _ => .error .unfit

end Json

mutual

/-- Integers are written whatever their size: the limit on the digits of a whole number
(`WholeNumber.sizeLimit`) is not put on them. -/
def Value.json : Value → Except Error String
  | .null => .ok "null"
  | .bool b => .ok (Json.bool b)
  | .int n => .ok (toString n)
  | .real x => .ok (Json.number x)
  | .str s => .ok (Json.string s)
  | .list items => do return "[" ++ ",".intercalate (← jsonItems items) ++ "]"
  | .tuple items => do return "[" ++ ",".intercalate (← jsonItems items) ++ "]"
  | .map entries => do return "\x7b" ++ ",".intercalate (← jsonEntries entries) ++ "\x7d"
  | .bytes bs => .ok (Json.string (Value.bytes bs).text)
  | .pattern source => .ok (Json.string (Value.pattern source).text)
  | .foreign object => .ok (Json.string object.text)
  | .subquery ref => .ok (Json.string ref.label)
  | .record model fields => .ok (Json.string (Value.record model fields).text)

def jsonItems : List Value → Except Error (List String)
  | [] => .ok []
  | item :: items => do return (← item.json) :: (← jsonItems items)

def jsonEntries : List (Value × Value) → Except Error (List String)
  | [] => .ok []
  | (key, value) :: entries => do
    return (Json.string (← Json.key key) ++ ":" ++ (← value.json)) :: (← jsonEntries entries)

end

/-- The form in which a value is written to a column: lists, tuples and maps as JSON text. -/
def Value.stored (v : Value) : Except Error Value :=
  match v with
  | .list _ | .tuple _ | .map _ => do return .str (← v.json)
  | v => .ok v

end BoundQuery
