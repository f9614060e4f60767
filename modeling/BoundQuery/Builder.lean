import BoundQuery.Statement.Aggregate
import BoundQuery.Statement.Insert
import BoundQuery.Statement.Select
import BoundQuery.Statement.Update

/-! Builders of statements of any kind. -/
namespace BoundQuery

inductive Builder where
  | select (s : Select)
  | update (u : Update)
  | delete (d : Delete)
  | insert (i : Insert)
  | aggregate (a : Aggregate)

namespace Builder

inductive Call where
  | select (c : Select.Call)
  | update (c : Update.Call)
  | delete (c : Delete.Call)
  | insert (c : Insert.Call)
  | aggregate (c : Aggregate.Call)

def kind : Builder → StatementKind
  | select _ => .select
  | update _ => .update
  | delete _ => .delete
  | insert _ => .insert
  | aggregate _ => .aggregate

/-- A new builder. Only updates have an identity column, and only aggregations a pipeline. -/
def start (kind : StatementKind) (table : Value) (registry : RegistryId) (idField : Value)
    (pipeline : Value) : Except Error Builder :=
  match kind with
  | .select => do return .select { table := ← Check.table .select table, registry }
  | .update => do
    let idField := if idField.truthy then idField else .str "id"
    return .update { table := ← Check.table .update table, registry, idField }
  | .delete => do return .delete { table := ← Check.table .delete table, registry }
  | .insert => do return .insert { table := ← Check.table .insert table }
  | .aggregate => do return .aggregate (← Aggregate.start table registry pipeline)

def table : Builder → String
  | select s => s.table
  | update u => u.table
  | delete d => d.table
  | insert i => i.table
  | aggregate a => a.table

def registry : Builder → RegistryId
  | select s => s.registry
  | update u => u.registry
  | delete d => d.registry
  | insert _ => 0
  | aggregate a => a.registry

/-- The filters given so far, as one filter. -/
def filter? : Builder → Option Value
  | select s => some s.filter.toTree
  | update u => some u.filter.toTree
  | delete d => some d.filter.toTree
  | _ => none

def idField? : Builder → Option Value
  | update u => some u.idField
  | _ => none

def stages? : Builder → Option (List Stage)
  | aggregate a => some a.stages
  | _ => none

def change {σ : Type} (wrap : σ → Builder) (s : σ) (c : Change σ Unit) :
    EStateM.Result Error Builder Unit :=
  match c s with
  | .ok a s => .ok a (wrap s)
  | .error e s => .error e (wrap s)

/-- A call is for a builder of its own kind. -/
def apply (call : Call) : Change Builder Unit := fun b =>
  match b, call with
  | select s, .select c => change select s (Select.apply c)
  | update u, .update c => change update u (Update.apply c)
  | delete d, .delete c => change delete d (Delete.apply c)
  | insert i, .insert c => change insert i (Insert.apply c)
  | aggregate a, .aggregate c => change aggregate a (Aggregate.apply c)
  | b, _ => .error .unfit b

def compile (scope : Scope) : Builder → Work Statement
  | select s => s.compile scope
  | update u => u.compile scope
  | delete d => d.compile scope
  | insert i => i.compile
  | aggregate a => a.compile scope

end Builder

end BoundQuery
