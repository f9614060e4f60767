import BoundQuery.Pipeline
import BoundQuery.Statement.Accumulated

/-! Aggregations: pipelines built stage by stage. A stage is read when it is added. -/
namespace BoundQuery

structure Aggregate where
  table : String
  registry : RegistryId := 0
  stages : List Stage := []

namespace Aggregate

inductive Call where
  | add (stage : Value)
  | named (kind : StageKind) (content : Value)
  | project (fields : Value)
  | lookup (spec : Value) (more : Fields)

def addStage (v : Value) : Change Aggregate Unit := do
  let stage ← Stage.parse v
  modify fun a => { a with stages := a.stages ++ [stage] }

def namedStage (kind : StageKind) (content : Value) : Value := .map [(.str kind.name, content)]

/-- Columns may be given by anything that has items. -/
def columns : Value → Except Error Value
  | .map es => .ok (.map es)
  | .str s => .ok (.str s)
  | v => do return .list (← v.items)

/-- The given map with further entries put in. -/
def lookupContent (spec : Value) (more : Fields) : Except Error Value := do
  let entries ← if spec.truthy then spec.toEntries else .ok []
  return .map (Entries.putAll entries more.toEntries)

def apply : Call → Change Aggregate Unit
  | .add stage => addStage stage
  | .named kind content => addStage (namedStage kind content)
  | .project fields => do addStage (namedStage .project (← columns fields))
  | .lookup spec more => do addStage (namedStage .lookup (← lookupContent spec more))

/-- A builder for a table, with the stages of a pipeline. What is empty holds no stages, whatever
its kind. -/
def start (table : Value) (registry : RegistryId) (pipeline : Value) : Except Error Aggregate := do
  let table ← Check.table .aggregate table
  let stages ← if pipeline.truthy then Stage.parseItems pipeline else .ok []
  return { table, registry, stages }

def compile (scope : Scope) (a : Aggregate) : Work Statement :=
  Pipeline.compile scope a.table a.stages

end Aggregate

end BoundQuery
