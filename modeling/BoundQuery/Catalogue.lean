import BoundQuery.Builder

/-! Sub-queries. A sub-query stands for a builder that may still change; it is compiled anew
each time it is used, and the statement is kept. The catalogue holds what sub-queries refer to,
by number, and compiling only reads it. -/
namespace BoundQuery

/-- Something that gives statements: a builder, or one statement for ever. -/
inductive Source where
  | builder (b : Builder)
  | fixed (s : Statement)

/-- What a sub-query stands for. A sub-query of a sub-query cannot be compiled. -/
inductive Target where
  | source (id : Nat)
  | subquery (id : Nat)
deriving DecidableEq, Inhabited

/-- The first registry is the one in force where no other is named. -/
structure Catalogue where
  registries : List Registry := [{}]
  sources : List Source := []
  targets : List Target := []

namespace Catalogue

def registry (c : Catalogue) (id : RegistryId) : Registry := (c.registries[id]?).getD {}

def sourceLabel (c : Catalogue) (id : Nat) : String :=
  match c.sources[id]? with
  | some (.builder b) => b.kind.name
  | _ => "Source"

/-- How a sub-query is shown. -/
def label (c : Catalogue) : (fuel : Nat) → Target → String
  | 0, _ => "SubQuery(...)"
  | _ + 1, .source id => "SubQuery(" ++ c.sourceLabel id ++ ")"
  | fuel + 1, .subquery id =>
    match c.targets[id]? with
    | some t => "SubQuery(" ++ c.label fuel t ++ ")"
    | none => "SubQuery(...)"

/-- Puts a statement in parentheses and keeps it; that its text is new is reported. -/
def keep (id : Nat) (s : Statement) : Work Statement := do
  let embedded : Statement := ⟨"(" ++ s.sql ++ ")", s.params⟩
  let j ← get
  if (j.kept id).map Statement.sql ≠ some embedded.sql then
    Work.note (.cached embedded.sql)
  modify fun j => j.keep id embedded
  return embedded

/-- The statement that is kept for a sub-query; compiles it if there is none. -/
def remembered (embed : Nat → Work Statement) (id : Nat) : Work Statement := do
  let j ← get
  match j.kept id with
  | some s => return s
  | none => embed id

def compileSource (c : Catalogue) (embed : Nat → Work Statement) (id : Nat) : Work Statement :=
  match c.sources[id]? with
  | some (.builder b) => b.compile ⟨c.registry b.registry, fun ref => embed ref.id⟩
  | some (.fixed s) => pure s
  | none => throw .unfit

/-- Compiles a sub-query, if sub-queries are nested in it less than `fuel` deep. -/
def embed (c : Catalogue) : (fuel : Nat) → (id : Nat) → Work Statement
  | 0, _ => throw .circular
  | fuel + 1, id =>
    match c.targets[id]? with
    | some (.source source) => do keep id (← c.compileSource (c.embed fuel) source)
    | some (.subquery inner) => do
      discard (remembered (c.embed fuel) inner)
      throw .unfit
    | none => throw .unfit

/-- Sub-queries that do not contain themselves are nested less deep than there are sub-queries. -/
def depth (c : Catalogue) : Nat := c.targets.length + 1

def scope (c : Catalogue) (id : RegistryId) : Scope :=
  ⟨c.registry id, fun ref => c.embed c.depth ref.id⟩

end Catalogue

end BoundQuery
