import BoundQuery.Join
import BoundQuery.Value.Items
import BoundQuery.Work

/-! The column list of a SELECT. -/
namespace BoundQuery

/-- The columns one after the other, or names with what they stand for. -/
inductive Projection where
  | columns (items : List Value)
  | entries (entries : Entries)

/-- A column, and its name if it has one of its own (`null` if not). -/
structure Column where
  source : Value
  title : Value := .null

namespace Projection

def toValue : Projection → Value
  | columns items => .list items
  | entries es => .map es

/-- A reference takes its entry's name; else a truthy entry includes its key, and any other
excludes it. -/
def entryColumn (key value : Value) : Option Column :=
  match value.reference? with
  | some field => some ⟨.str field, key⟩
  | none => if value.truthy then some ⟨key, .null⟩ else none

def toColumns : Projection → List Column
  | columns items => items.map fun item => ⟨item, .null⟩
  | entries es => es.filterMap fun e => entryColumn e.1 e.2

end Projection

namespace Column

def plain (c : Column) : Value :=
  if c.title.truthy then .str (c.source.text ++ " AS " ++ c.title.text) else c.source

/-- The table and the column that a source names. A source qualified by the table or by the
name of a join is taken as it is; any other belongs to the table. -/
def qualifier (source table : String) (names : List String) : String × String :=
  let (head, tail) := Text.splitAtDot source
  if tail ≠ "" ∧ (head ∈ names ∨ head = table) then (head, tail) else (table, source)

def titleFor (table column : String) : Value → String
  | .null => table ++ "_" ++ Text.underscored column
  | v => v.text

/-- A column beside joins: qualified once, and named. -/
def qualified (table : String) (names : List String) (c : Column) : Except Error String :=
  match c.source with
  | .str source =>
    let (q, column) := qualifier source table names
    .ok (q ++ "." ++ column ++ " AS " ++ titleFor q column c.title)
  | _ => .error .unfit

def qualifiedAll (table : String) (names : List String) : List Column → Except Error (List String)
  | [] => .ok []
  | c :: cs => do return (← c.qualified table names) :: (← qualifiedAll table names cs)

end Column

namespace Projection

/-- The columns without joins, each as it is. -/
def plainColumns (p : Projection) : List Value := p.toColumns.map Column.plain

/-- The column list of a SELECT from a table with joins. -/
def clause (table : String) (joins : List Join) : Option Projection → Work String
  | none => pure "*"
  | some p => do
    let columns := p.toColumns
    if columns.isEmpty then
      return "*"
    else
      let text ←
        if joins.isEmpty then Value.join ", " (columns.map Column.plain)
        else ", ".intercalate <$> Column.qualifiedAll table (joins.map Join.name) columns
      Work.note (.projection text)
      return text

end Projection

end BoundQuery
