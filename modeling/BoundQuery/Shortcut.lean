import BoundQuery.Config
import BoundQuery.Statement.Select

/-! SELECT statements in one call. -/
namespace BoundQuery.Shortcut

def orDefault (v fallback : Value) : Value :=
  match v with
  | .null => fallback
  | v => v

def sorted (config : Config) (limit orderBy : Value) : Change Select Unit := do
  Select.apply (.sort (orDefault orderBy config.orderBy))
  Select.apply (.limit (orDefault limit config.limit))

/-- The builder after a series of calls. -/
def built (table : Value) (calls : Change Select Unit) : Except Error Select := do
  let s : Select := { table := ← Check.table .select table }
  match calls s with
  | .ok _ s => .ok s
  | .error e _ => .error e

/-- All columns of the rows that a filter selects. -/
def select (config : Config) (query table limit orderBy : Value) : Except Error Select :=
  built table do
    Select.apply (.query query)
    sorted config limit orderBy

/-- The joins to add: none if the value is empty, else its items. -/
def joinItems (v : Value) : Except Error (List Value) := if v.truthy then v.items else .ok []

/-- Beside the conditions the query may hold the columns, under `$project`. -/
def selectWithJoins (config : Config) (query table joins limit orderBy : Value) :
    Except Error Select := do
  let entries ← query.toEntries
  let columns := (Entries.get? (.str "$project") entries).getD .null
  built table do
    Select.apply (.join (.list (← joinItems joins)))
    if columns.truthy then
      Select.apply (.project columns)
    Select.apply (.query (.map (Entries.erase (.str "$project") entries)))
    sorted config limit orderBy

end BoundQuery.Shortcut
