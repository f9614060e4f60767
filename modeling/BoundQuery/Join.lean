import BoundQuery.Schema.Reading
import BoundQuery.Text.Upper

/-! Joins. -/
namespace BoundQuery

structure Join where
  table : String
  shortName : Option String := none
  type : String := "INNER JOIN"
  on : String

namespace Join

/-- The words of a join type in upper case, with `JOIN` at the end. -/
def normalType (s : String) : String :=
  let type := " ".intercalate (Text.words (Text.upper s))
  if "JOIN".toList.isSuffixOf type.toList then type else type ++ " JOIN"

/-- The name by which columns of the joined table are qualified. -/
def name (j : Join) : String :=
  match j.shortName with
  | some short => if short = "" then j.table else short
  | none => j.table

def aliasClause : Option String → String
  | some short => if short = "" then "" else " AS " ++ short
  | none => ""

def clause (j : Join) : String :=
  j.type ++ " " ++ j.table ++ aliasClause j.shortName ++ " ON " ++ j.on

def tableSlot : Slot := ⟨"tableName", "table_name"⟩
def aliasSlot : Slot := ⟨"alias", "alias"⟩
def typeSlot : Slot := ⟨"joinType", "join_type"⟩
def onSlot : Slot := ⟨"on", "on"⟩

open Reading in
/-- A join from its fields; `type` is what becomes of a given join type. -/
def ofEntries (type : String → String) (es : Entries) : Reading Join :=
  let table := tableSlot.read es text none
  let shortName := aliasSlot.read es optionalText (some none)
  let type := typeSlot.read es (fun v => (text v).map type) (some "INNER JOIN")
  let on := onSlot.read es text none
  also (both (both (both (table.map Join.mk) shortName) type) on)
    (Slot.leftovers [tableSlot, aliasSlot, typeSlot, onSlot] es)

/-- A record of a join is that join, whose type is normal already. -/
def read : Value → Reading Join
  | .map es => ofEntries normalType es
  | .record .join fields => ofEntries id (Fields.toEntries fields)
  | _ => Reading.fail [] .notModel

def toRecord (j : Join) : Value :=
  .record .join [(tableSlot.name, .str j.table),
    (aliasSlot.name, (j.shortName.map Value.str).getD .null), (typeSlot.name, .str j.type),
    (onSlot.name, .str j.on)]

@[simp] theorem read_toRecord (j : Join) : read j.toRecord = .ok j := by
  obtain ⟨table, shortName, type, on⟩ := j
  cases shortName <;> rfl

end Join

end BoundQuery
