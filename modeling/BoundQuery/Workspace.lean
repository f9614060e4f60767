import BoundQuery.Catalogue
import BoundQuery.Shortcut

/-! Workspaces: a catalogue that grows and changes, with the journal of all that was compiled.
What a step changed before it failed stays changed. -/
namespace BoundQuery

structure Workspace extends Catalogue where
  journal : Journal := {}

abbrev Session := EStateM Error Workspace

namespace Session

/-- Compiles with what the workspace holds. -/
def ofWork {α : Type} (work : Catalogue → Work α) : Session α := fun w =>
  match work w.toCatalogue w.journal with
  | .ok a j => .ok a { w with journal := j }
  | .error e j => .error e { w with journal := j }

def addRegistry : Session RegistryId := do
  let w ← get
  set { w with registries := w.registries ++ [Registry.mk []] }
  return w.registries.length

/-- Registers a handler, or refuses what is none. -/
def register (id : RegistryId) (operator : String) (handler : Option Handler) : Session Unit := do
  let w ← get
  let registry ← (w.registry id).register operator handler
  set { w with
    registries := w.registries.set id registry
    journal := w.journal.note (.registered operator) }

def addSource (s : Source) : Session Nat := do
  let w ← get
  set { w with sources := w.sources ++ [s] }
  return w.sources.length

def start (kind : StatementKind) (table : Value) (registry : RegistryId) (idField : Value)
    (pipeline : Value) : Session Nat := do
  addSource (.builder (← Builder.start kind table registry idField pipeline))

/-- A new sub-query, as a value. -/
def wrap (t : Target) : Session SubQueryRef := do
  let w ← get
  set { w with targets := w.targets ++ [t] }
  return ⟨w.targets.length, w.label w.depth t⟩

/-- Among values only a sub-query can be compiled. -/
def wrapValue : Value → Session SubQueryRef
  | .subquery ref => wrap (.subquery ref.id)
  | _ => throw .notCompilable

/-- A call on a builder. -/
def call (id : Nat) (c : Builder.Call) : Session Unit := fun w =>
  match w.sources[id]? with
  | some (.builder b) =>
    match Builder.apply c b with
    | .ok a b => .ok a { w with sources := w.sources.set id (.builder b) }
    | .error e b => .error e { w with sources := w.sources.set id (.builder b) }
  | _ => .error .unfit w

def compile (id : Nat) : Session Statement :=
  ofWork fun c => c.compileSource (c.embed c.depth) id

def embed (id : Nat) : Session Statement := ofWork fun c => c.embed c.depth id

/-- The statement kept for a sub-query, which is compiled if there is none. -/
def remembered (id : Nat) : Session Statement :=
  ofWork fun c => Catalogue.remembered (c.embed c.depth) id

/-- Writes into a draft that has values already; also gives the values that are bound in the
end, be it by a failure. -/
def draft {α : Type} (registry : RegistryId) (params : List Value) (compile : Scope → Compile α) :
    Session (Except Error α × List Value) := fun w =>
  match compile (w.scope registry) ⟨params, w.journal⟩ with
  | .ok a d => .ok (.ok a, d.params) { w with journal := d.journal }
  | .error e d => .ok (.error e, d.params) { w with journal := d.journal }

def compileFilter (registry : RegistryId) (tree : Value) : Session Statement := do
  let (text, params) ← ofWork fun c =>
    Compile.collect [] (Filter.compile (c.scope registry) "root" tree)
  return ⟨text, params⟩

def compilePipeline (registry : RegistryId) (table pipeline : Value) : Session Statement :=
  ofWork fun c => Pipeline.compileValue (c.scope registry) table.text pipeline

/-- The statement of a builder that is not in the catalogue. -/
def compileSelect (s : Select) : Session Statement :=
  ofWork fun c => s.compile (c.scope s.registry)

end Session

end BoundQuery
