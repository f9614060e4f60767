import BoundQuery.Clause.Group
import BoundQuery.Filter.Condition
import BoundQuery.Stage.Read

/-! Pipelines as one SELECT. The stages are folded from left to right into a plan, which holds
each clause on its own, and the plan is then written in the order of SQL. The values of the
filters before grouping come before those of the filters after it, as their clauses do. -/
namespace BoundQuery

structure Plan where
  select : String := "*"
  grouped : Bool := false
  conditions : List String := []
  params : List Value := []
  groupBy : String := ""
  having : List String := []
  havingParams : List Value := []
  order : String := ""
  limit : Option Nat := none
  offset : Option Nat := none
  joins : List String := []
  comments : List String := []

namespace Plan

/-- The characters without the mark that ends a comment. -/
def withoutCloser : List Char → List Char
  | '*' :: '/' :: rest => withoutCloser rest
  | c :: rest => c :: withoutCloser rest
  | [] => []

/-- Unwinding has no form in SQL; a comment tells of it. -/
def unwindComment (path : String) : String :=
  "/* UNWIND(" ++ String.ofList (withoutCloser path.toList) ++ ") */"

/-- A filter that always holds is left out. -/
def restricting (clause : String) : List String :=
  if clause = Dialect.alwaysTrue then [] else [clause]

def step (scope : Scope) (table : String) (plan : Plan) : Stage → Work Plan
  | .filter tree => do
    let (clause, params) ←
      Compile.collect plan.params (Filter.compile scope "$match" tree.toValue)
    return { plan with conditions := plan.conditions ++ restricting clause, params }
  | .group spec => do
    let clause ← GroupClause.ofSpec spec
    return { plan with select := clause.select, groupBy := clause.groupBy, grouped := true }
  | .project columns => do
    let columns := columns.plainColumns
    if columns.isEmpty then
      return plan
    else
      let text ← Value.join ", " columns
      return { plan with select := if plan.grouped then text ++ ", " ++ plan.select else text }
  | .sort order => pure { plan with order := order.clause }
  | .limit n => pure { plan with limit := some n }
  | .skip n => pure { plan with offset := some n }
  | .lookup l => pure { plan with joins := plan.joins ++ [l.clause table] }
  | .unwind path => pure { plan with comments := plan.comments ++ [unwindComment path] }
  | .having tree => do
    let (clause, havingParams) ←
      Compile.collect plan.havingParams (Filter.compile scope "$having" tree.toValue)
    return { plan with having := plan.having ++ restricting clause, havingParams }

def run (scope : Scope) (table : String) (plan : Plan) : List Stage → Work Plan
  | [] => pure plan
  | stage :: rest => do run scope table (← step scope table plan stage) rest

theorem run_append (scope : Scope) (table : String) (plan : Plan) (first second : List Stage) :
    run scope table plan (first ++ second) =
      run scope table plan first >>= fun plan => run scope table plan second := by
  induction first generalizing plan with
  | nil => rfl
  | cons stage rest ih =>
    funext j
    simp only [List.cons_append, run, bind, EStateM.bind]
    cases step scope table plan stage j with
    | ok next j => simpa [bind, EStateM.bind] using congrFun (ih next) j
    | error e j => rfl

/-- A clause with its keyword, or nothing if it is empty. -/
def clause (keyword body : String) : List String :=
  if body = "" then [] else [keyword ++ " " ++ body]

def conjunction (keyword : String) (conditions : List String) : List String :=
  if conditions.isEmpty then [] else [keyword ++ " " ++ " AND ".intercalate conditions]

def paging (limit offset : Option Nat) : List String :=
  let text := Dialect.paging limit offset
  if text = "" then [] else [text]

def statement (plan : Plan) (table : String) : Statement where
  sql := " ".intercalate <|
    ["SELECT " ++ plan.select, "FROM " ++ table] ++ plan.joins ++ plan.comments
      ++ conjunction "WHERE" plan.conditions ++ clause "GROUP BY" plan.groupBy
      ++ conjunction "HAVING" plan.having ++ clause "ORDER BY" plan.order
      ++ paging plan.limit plan.offset
  params := plan.params ++ plan.havingParams

end Plan

namespace Pipeline

def compile (scope : Scope) (table : String) (stages : List Stage) : Work Statement := do
  let plan ← Plan.run scope table {} stages
  let statement := plan.statement table
  Work.note (.compiled .aggregate statement)
  return statement

/-- All stages are read before any is compiled. -/
def compileValue (scope : Scope) (table : String) (pipeline : Value) : Work Statement := do
  compile scope table (← Stage.parseItems pipeline)

end Pipeline

end BoundQuery
