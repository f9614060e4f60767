import BoundQuery.Dialect
import BoundQuery.Stage.Basic

/-! Grouping: the columns that a `$group` stage gives, and what it groups by. -/
namespace BoundQuery

/-- The name without its mark for a reference, and the text of any other value. -/
def Value.fieldName (v : Value) : String := (v.reference?).getD v.text

structure GroupClause where
  select : String
  groupBy : String

namespace GroupClause

inductive Aggregate where
  | sum
  | avg
  | min
  | max
deriving DecidableEq, Inhabited

def Aggregate.function : Aggregate → String
  | sum => "SUM"
  | avg => "AVG"
  | min => "MIN"
  | max => "MAX"

def Aggregate.ofName? : Value → Option Aggregate
  | .str s =>
    if s = "$sum" then some .sum
    else if s = "$avg" then some .avg
    else if s = "$min" then some .min
    else if s = "$max" then some .max
    else none
  | _ => none

def operand : Value → String
  | .null => "NULL"
  | .bool b => if b then "1" else "0"
  | .int n => toString n
  | .real x => x.text
  | v => (v.reference?).getD (Dialect.literal v)

def error (fault : Fault) : Error := .generation fault (.str "$group")

def accumulator (name : String) : Value → Except Error String
  | .map [(operator, v)] =>
    match Aggregate.ofName? operator with
    | some a => .ok (a.function ++ "(" ++ operand v ++ ") AS " ++ name)
    | none => .error (error (.aggregateName operator))
  | _ => .error (error (.accumulatorShape name))

def accumulatorColumns : Fields → Except Error (List String)
  | [] => .ok []
  | (name, v) :: rest => do return (← accumulator name v) :: (← accumulatorColumns rest)

/-- The columns of the identity, and what is grouped by for it. -/
def identityColumns (identity : Value) : List String × List String :=
  match identity with
  | .map es =>
    let names := es.map fun e => e.2.fieldName
    (names, names)
  | .null => ([], [])
  | .str "" => ([], [])
  | v =>
    match v.reference? with
    | some field => ([field ++ " AS _id"], [field])
    | none => ([Dialect.literal v ++ " AS _id"], [])

def ofSpec (spec : Fields) : Work GroupClause := do
  let (columns, groupBy) := identityColumns (Stage.identity spec)
  let outputs ← accumulatorColumns (Stage.accumulators spec)
  if (columns ++ outputs).isEmpty then
    throw (error .noGroupOutput)
  else
    let clause := ⟨", ".intercalate (columns ++ outputs), ", ".intercalate groupBy⟩
    Work.note (.group clause.select clause.groupBy)
    return clause

end GroupClause

end BoundQuery
