import BoundQuery.Filter.Condition
import BoundQuery.Statement.Accumulated

/-! DELETE statements. Without a filter they are refused. -/
namespace BoundQuery

structure Delete where
  table : String
  registry : RegistryId := 0
  filter : Accumulated := .empty
  single : Bool := false

/-- The limit of a statement that may touch one row only. -/
def singleLimit (single : Bool) : String := if single then " LIMIT 1" else ""

def missingFilter (kind : StatementKind) (table : String) : Error :=
  .safety (.missingFilter kind.name table) (.str kind.name)

namespace Delete

inductive Call where
  | query (tree : Value)
  | single

def apply : Call → Change Delete Unit
  | .query tree => do
    let d ← get
    let filter ← d.filter.query .delete tree
    set { d with filter }
  | .single => modify fun d => { d with single := true }

def compile (scope : Scope) (d : Delete) : Work Statement := do
  if d.filter.isEmpty then
    throw (missingFilter .delete d.table)
  else
    let (clause, params) ← Compile.collect [] (Filter.compile scope "DELETE" d.filter.toTree)
    let statement : Statement :=
      ⟨"DELETE FROM " ++ d.table ++ " WHERE " ++ clause ++ singleLimit d.single, params⟩
    Work.note (.compiled .delete statement)
    return statement

end Delete

end BoundQuery
