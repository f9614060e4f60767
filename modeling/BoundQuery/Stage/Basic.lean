import BoundQuery.Clause.Order
import BoundQuery.Clause.Projection

/-! The stages of a pipeline. -/
namespace BoundQuery

/-- Rows of another table, joined where a field of each agrees. -/
structure Lookup where
  source : String
  localField : String
  foreignField : String
  name : String

def Lookup.clause (l : Lookup) (table : String) : String :=
  "LEFT JOIN " ++ l.source ++ " AS " ++ l.name ++ " ON " ++ table ++ "." ++ l.localField ++ " = "
    ++ l.name ++ "." ++ l.foreignField

inductive Stage where
  | filter (tree : Fields)
  | group (spec : Fields)
  | project (columns : Projection)
  | sort (order : Order)
  | limit (n : Nat)
  | skip (n : Nat)
  | lookup (l : Lookup)
  | unwind (path : String)
  | having (tree : Fields)

namespace Stage

/-- What the rows of a group have in common. -/
def identity (spec : Fields) : Value := (spec.get? "_id").getD .null

def accumulators (spec : Fields) : Fields := spec.filter fun f => f.1 != "_id"

end Stage

end BoundQuery
