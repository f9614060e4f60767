import BoundQuery.Dialect
import BoundQuery.Statement.Accumulated
import BoundQuery.Value.Items
import BoundQuery.Value.Json
import BoundQuery.Work

/-! INSERT statements. The first document gives the columns; the others have the same keys, in
any order. -/
namespace BoundQuery

structure Insert where
  table : String
  documents : List Entries := []
  upsert : Bool := false
  upsertFields : Option (List Value) := none

namespace Insert

inductive Call where
  | insertOne (document : Value)
  | insertMany (documents : Value)
  | upsert (enable fields : Value)

def configurationError (fault : Fault) : Error :=
  .configuration fault (.str StatementKind.insert.name)

def readDocument : Value → Except Error Entries
  | .map document => .ok document
  | v => .error (configurationError (.documentKind v.kind))

def readDocuments (index : Nat) : List Value → Except Error (List Entries)
  | [] => .ok []
  | .map document :: rest => do return document :: (← readDocuments (index + 1) rest)
  | _ :: _ => .error (configurationError (.documentAt index))

def apply : Call → Change Insert Unit
  | .insertOne v => do
    let document ← readDocument v
    modify fun i => { i with documents := [document] }
  | .insertMany v =>
    match v.sequence? with
    | some items => do
      let documents ← readDocuments 0 items
      modify fun i => { i with documents }
    | none => throw (configurationError .documentsKind)
  | .upsert enable fields => do
    modify fun i => { i with upsert := enable.truthy }
    match fields with
    | .null => modify fun i => { i with upsertFields := none }
    | v => do
      let fields ← v.items
      modify fun i => { i with upsertFields := some fields }

def sorted (vs : List Value) : Except Error (List Value) :=
  match Value.sorted? vs with
  | some vs => .ok vs
  | none => .error .unfit

/-- The keys of the first list that the second lacks. -/
def lacking (keys others : List Value) : List Value := keys.filter fun key => !key.isIn others

/-- Every document has exactly the given columns. -/
def checkColumns (columns : List Value) (index : Nat) : List Entries → Except Error Unit
  | [] => .ok ()
  | document :: rest => do
    let missing := lacking columns (Entries.keys document)
    let extra := lacking (Entries.keys document) columns
    if missing.isEmpty && extra.isEmpty then checkColumns columns (index + 1) rest
    else
      let missing ← sorted missing
      let extra ← sorted extra
      .error (configurationError (.columnMismatch index missing extra))

def documentParams (document : Entries) : List Value → Except Error (List Value)
  | [] => .ok []
  | column :: rest => do
    let v ← ((Entries.get? column document).getD .null).stored
    return v :: (← documentParams document rest)

/-- The values of all documents, one document after the other. -/
def rowParams (columns : List Value) : List Entries → Except Error (List Value)
  | [] => .ok []
  | document :: rest => do
    let row ← documentParams document columns
    return row ++ (← rowParams columns rest)

def unknownFields (columns : List Value) : List Value → Except Error (List Value)
  | [] => .ok []
  | field :: rest =>
    if !field.isKey then .error .unfit
    else do
      let more ← unknownFields columns rest
      return if field.isIn columns then more else field :: more

def upsertClause (i : Insert) (columns : List Value) : Except Error String :=
  if i.upsert then do
    let fields := i.upsertFields.getD columns
    if fields.isEmpty then .error (configurationError .noUpsertFields)
    else
      let unknown ← unknownFields columns fields
      if unknown.isEmpty then .ok (" " ++ Dialect.upsert fields)
      else .error (configurationError (.unknownUpsertFields unknown))
  else .ok ""

def statement (i : Insert) : Except Error Statement :=
  match i.documents with
  | [] => .error (.safety (.noDocuments i.table) (.str StatementKind.insert.name))
  | [] :: _ => .error (configurationError .emptyDocument)
  | first :: rest => do
    let columns := Entries.keys first
    checkColumns columns 1 rest
    let names ← Value.join ", " columns
    let row := "(" ++ Dialect.placeholders columns.length ++ ")"
    let params ← rowParams columns i.documents
    let upsert ← i.upsertClause columns
    return ⟨"INSERT INTO " ++ i.table ++ " (" ++ names ++ ") VALUES "
      ++ ", ".intercalate (i.documents.map fun _ => row) ++ upsert, params⟩

def compile (i : Insert) : Work Statement := do
  let s ← i.statement
  Work.note (.compiled .insert s)
  return s

end Insert

end BoundQuery
