import BoundQuery.Stage.Basic

/-! Reading stages. A stage is written as a map with a single key, the name of its kind, or as
the fields of a model, of which it can be a record already. -/
namespace BoundQuery

namespace Lookup

def sourceSlot : Slot := ⟨"from", "from_"⟩
def localSlot : Slot := ⟨"localField", "local_field"⟩
def foreignSlot : Slot := ⟨"foreignField", "foreign_field"⟩
def nameSlot : Slot := ⟨"as", "as_"⟩

open Reading in
def ofEntries (es : Entries) : Reading Lookup :=
  let source := sourceSlot.read es text none
  let localField := localSlot.read es text none
  let foreignField := foreignSlot.read es text none
  let name := nameSlot.read es text none
  also (both (both (both (source.map Lookup.mk) localField) foreignField) name)
    (Slot.leftovers [sourceSlot, localSlot, foreignSlot, nameSlot] es)

def read : Value → Reading Lookup
  | .map es => ofEntries es
  | .record (.stage .lookup) fields => ofEntries (Fields.toEntries fields)
  | _ => Reading.fail [] .notModel

def toFields (l : Lookup) : Fields :=
  [(sourceSlot.name, .str l.source), (localSlot.name, .str l.localField),
    (foreignSlot.name, .str l.foreignField), (nameSlot.name, .str l.name)]

@[simp] theorem ofEntries_toFields (l : Lookup) : ofEntries l.toFields.toEntries = .ok l := rfl

end Lookup

namespace Stage

open Reading

def readColumns (v : Value) : Reading Projection :=
  either (under (.name "list[str]") ((texts v).map fun ss => .columns (ss.map .str)))
    (under (.name "dict[str,any]") ((fields v).map fun fs => .entries fs.toEntries))

def readOrder (v : Value) : Reading Order :=
  either (under (.name "str") ((text v).map .text))
    (under (.name "dict[str,any]") ((fields v).map fun fs => .fields fs.toEntries))

/-- The content of a stage. -/
def readContent (kind : StageKind) (v : Value) : Reading Stage :=
  match kind with
  | .filter => (fields v).map .filter
  | .group => (fields v).map .group
  | .project => (readColumns v).map .project
  | .sort => (readOrder v).map .sort
  | .limit => (count v).map .limit
  | .skip => (count v).map .skip
  | .lookup => (Lookup.read v).map .lookup
  | .unwind => (text v).map .unwind
  | .having => (fields v).map .having

def located (kind : StageKind) (v : Value) : Reading Stage :=
  match kind with
  | .lookup => readContent kind v
  | kind => under (.name kind.field) (readContent kind v)

/-- A path to unwind may be given on its own or in a map. -/
def unwindPath : Value → Value
  | .map es => (Entries.get? (.str "path") es).getD (.str "")
  | v => v

def readNamed (kind : StageKind) (v : Value) : Reading Stage :=
  match kind with
  | .unwind => located kind (unwindPath v)
  | kind => located kind v

def default? : StageKind → Option Stage
  | .filter => some (.filter [])
  | .having => some (.having [])
  | _ => none

/-- A stage from the fields of its model. -/
def ofEntries (kind : StageKind) (es : Entries) : Reading Stage :=
  match kind with
  | .lookup => (Lookup.ofEntries es).map .lookup
  | kind =>
    let slot : Slot := ⟨kind.field, kind.field⟩
    also (slot.read es (readContent kind) (default? kind)) (Slot.leftovers [slot] es)

def ofModel (kind : StageKind) : Value → Reading Stage
  | .map es => ofEntries kind es
  | .record model fields =>
    if model = .stage kind then ofEntries kind (Fields.toEntries fields) else fail [] .notModel
  | _ => fail [] .notModel

def kind : Stage → StageKind
  | filter _ => .filter
  | group _ => .group
  | project _ => .project
  | sort _ => .sort
  | limit _ => .limit
  | skip _ => .skip
  | lookup _ => .lookup
  | unwind _ => .unwind
  | having _ => .having

def toFields : Stage → Fields
  | filter tree => [("filter", tree.toValue)]
  | group spec => [("spec", spec.toValue)]
  | project columns => [("columns", columns.toValue)]
  | sort order => [("spec", order.toValue)]
  | limit n => [("value", .int n)]
  | skip n => [("value", .int n)]
  | lookup l => l.toFields
  | unwind path => [("path", .str path)]
  | having tree => [("filter", tree.toValue)]

def toRecord (stage : Stage) : Value := .record (.stage stage.kind) stage.toFields

def error (fault : Fault) : Error := .malformed fault (.str "pipeline")

/-- A record of a stage is that stage; any other value has to be a map with a single key. -/
def parse (v : Value) : Except Error Stage :=
  match v with
  | .record (.stage kind) fields =>
    match ofEntries kind (Fields.toEntries fields) with
    | .ok stage => .ok stage
    | .error issues => .error (.invalid issues)
  | .map [(name, content)] =>
    match name with
    | .str s =>
      match StageKind.ofName? s with
      | some kind =>
        match readNamed kind content with
        | .ok stage => .ok stage
        | .error issues => .error (error (.stageIssues s issues))
      | none => .error (error (.stageName name))
    | name => .error (error (.stageName name))
  | v => .error (error (.stageShape v))

def parseAll : List Value → Except Error (List Stage)
  | [] => .ok []
  | v :: rest => do return (← parse v) :: (← parseAll rest)

/-- The stages that a value holds, item by item. -/
def parseItems (v : Value) : Except Error (List Stage) := do parseAll (← v.items)

end Stage

end BoundQuery
