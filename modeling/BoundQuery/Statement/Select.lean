import BoundQuery.Pipeline
import BoundQuery.Statement.Accumulated

/-! SELECT statements. -/
namespace BoundQuery

structure Select where
  table : String
  registry : RegistryId := 0
  filter : Accumulated := .empty
  projection : Option Projection := none
  joins : List Join := []
  order : Option Order := none
  limit : Option Nat := none
  offset : Option Nat := none

namespace Select

inductive Call where
  | query (tree : Value)
  | project (fields : Value)
  | join (joins : Value)
  | sort (order : Value)
  | limit (n : Value)
  | offset (n : Value)

def refuse {α : Type} (fault : Fault) : Except Error α :=
  .error (.configuration fault (.str StatementKind.select.name))

def readProjection : Value → Except Error Projection
  | .str _ => refuse .projectionText
  | .map es => .ok (.entries es)
  | v => do return .columns (← v.items)

def readJoin (v : Value) : Except Error Join :=
  match Join.read v with
  | .ok j => .ok j
  | .error issues => refuse (.joinIssues issues)

def readOrder (v : Value) : Except Error Order :=
  match Order.ofValue? v with
  | some order => .ok order
  | none => refuse .sortKind

/-- A map or a record of a join is a single one; any other value is gone through item by item. -/
def joinItems : Value → Except Error (List Value)
  | .map es => .ok [.map es]
  | .record .join fields => .ok [.record .join fields]
  | v => v.items

/-- Joins are added one by one, so those before a faulty one stay. -/
def addJoins : List Value → Change Select Unit
  | [] => pure ()
  | v :: rest => do
    let j ← readJoin v
    modify fun s => { s with joins := s.joins ++ [j] }
    addJoins rest

def apply : Call → Change Select Unit
  | .query tree => do
    let s ← get
    let filter ← s.filter.query .select tree
    set { s with filter }
  | .project fields => do
    let p ← readProjection fields
    modify fun s => { s with projection := some p }
  | .join joins => do addJoins (← joinItems joins)
  | .sort v => do
    let order ← readOrder v
    modify fun s => { s with order := some order }
  | .limit v => do
    let n ← Check.count .select "limit" v
    modify fun s => { s with limit := some n }
  | .offset v => do
    let n ← Check.count .select "offset" v
    modify fun s => { s with offset := some n }

/-- The condition with its values; none if no filter was given. -/
def condition (scope : Scope) (s : Select) : Work (List String × List Value) := do
  if s.filter.isEmpty then
    return ([], [])
  else
    let (clause, params) ← Compile.collect [] (Filter.compile scope "SELECT" s.filter.toTree)
    return (["WHERE " ++ clause], params)

def compile (scope : Scope) (s : Select) : Work Statement := do
  let columns ← Projection.clause s.table s.joins s.projection
  let (condition, params) ← s.condition scope
  let order := (s.order.map Order.clause).getD ""
  let statement : Statement := ⟨" ".intercalate <|
    ["SELECT " ++ columns, "FROM " ++ s.table] ++ s.joins.map Join.clause ++ condition
      ++ Plan.clause "ORDER BY" order ++ Plan.paging s.limit s.offset, params⟩
  Work.note (.compiled .select statement)
  return statement

end Select

end BoundQuery
