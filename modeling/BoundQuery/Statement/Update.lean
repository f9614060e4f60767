import BoundQuery.Statement.Delete

/-! UPDATE statements. The payload is a map of update operators, of which plain fields are a
short form, or a list of rows, each with the identity of the row that it is for. -/
namespace BoundQuery

inductive Payload where
  | operations (operations : Entries)
  | rows (rows : List Entries)

structure Update where
  table : String
  registry : RegistryId := 0
  filter : Accumulated := .empty
  idField : Value := .str "id"
  payload : Option Payload := none
  single : Bool := false

inductive UpdateOperator where
  | put
  | increase
  | multiply
  | unset
deriving DecidableEq, Inhabited

namespace UpdateOperator

def ofName? (s : String) : Option UpdateOperator :=
  if s = "$set" then some .put
  else if s = "$inc" then some .increase
  else if s = "$mul" then some .multiply
  else if s = "$unset" then some .unset
  else none

/-- The assignment to a field. -/
def assignment (field : String) : UpdateOperator → String
  | put => field ++ " = ?"
  | increase => field ++ " = " ++ field ++ " + ?"
  | multiply => field ++ " = " ++ field ++ " * ?"
  | unset => field ++ " = NULL"

/-- The value bound for a field: lists and maps are only put as JSON text. -/
def bound : UpdateOperator → Value → Except Error Value
  | put, v => v.stored
  | _, v => .ok v

end UpdateOperator

/-- Texts, and the values for the placeholders in them. -/
structure Assignments where
  texts : List String := []
  params : List Value := []

def Assignments.append (a b : Assignments) : Assignments := ⟨a.texts ++ b.texts, a.params ++ b.params⟩

namespace Update

inductive Call where
  | query (tree : Value)
  | update (payload : Value)
  | single

def generationError (fault : Fault) : Error := .generation fault (.str StatementKind.update.name)

def configurationError (fault : Fault) : Error :=
  .configuration fault (.str StatementKind.update.name)

/-- Every row is a map that carries the identity. -/
def readRows (idField : Value) (index : Nat) : List Value → Except Error (List Entries)
  | [] => .ok []
  | .map row :: rest =>
    if !idField.isKey then .error .unfit
    else if Entries.has row idField then do return row :: (← readRows idField (index + 1) rest)
    else .error (configurationError (.rowShape index idField))
  | _ :: _ => .error (configurationError (.rowShape index idField))

def readOperations (es : Entries) : Except Error Entries :=
  if es.isEmpty then .error (configurationError .emptyPayload)
  else if es.all fun e => e.1.isOperator then .ok es
  else if es.any fun e => e.1.isOperator then .error (generationError .mixedPayload)
  else .ok [(.str "$set", .map es)]

def readPayload (idField : Value) : Value → Except Error Payload
  | .map es => do return .operations (← readOperations es)
  | .list rows => do return .rows (← readRows idField 0 rows)
  | .tuple rows => do return .rows (← readRows idField 0 rows)
  | v => .error (configurationError (.payloadKind v.kind))

def apply : Call → Change Update Unit
  | .query tree => do
    let u ← get
    let filter ← u.filter.query .update tree
    set { u with filter }
  | .update v => do
    let u ← get
    let payload ← readPayload u.idField v
    set { u with payload := some payload }
  | .single => modify fun u => { u with single := true }

def fieldAssignments (operator : UpdateOperator) : Entries → Except Error Assignments
  | [] => .ok {}
  | (field, v) :: rest => do
    let first : Assignments := ⟨[operator.assignment field.text], [← operator.bound v]⟩
    return first.append (← fieldAssignments operator rest)

def unsetFields : Value → Except Error (List Value)
  | .map es => .ok (Entries.keys es)
  | .list items => .ok items
  | .tuple items => .ok items
  | _ => .error (generationError .unsetOperand)

def operationAssignments (name : String) (operand : Value) : Except Error Assignments :=
  match UpdateOperator.ofName? name with
  | none => .error (generationError (.updateName name))
  | some .unset => do
    let fields ← unsetFields operand
    return ⟨fields.map fun f => UpdateOperator.unset.assignment f.text, []⟩
  | some operator =>
    match operand with
    | .map fields => fieldAssignments operator fields
    | _ => .error (generationError (.updateOperand name))

def assignments : Entries → Except Error Assignments
  | [] => .ok {}
  | (operator, operand) :: rest => do
    let first ← operationAssignments operator.text operand
    return first.append (← assignments rest)

def head (u : Update) (texts : List String) : String :=
  "UPDATE " ++ u.table ++ " SET " ++ ", ".intercalate texts ++ " WHERE "

def operatorUpdate (scope : Scope) (u : Update) (operations : Entries) : Work Statement := do
  let a ← assignments operations
  if a.texts.isEmpty then
    throw (generationError .nothingAssigned)
  else
    let (clause, params) ←
      Compile.collect a.params (Filter.compile scope "UPDATE" u.filter.toTree)
    return ⟨u.head a.texts ++ clause, params⟩

/-- The columns of the rows, each once, in the order of their first appearance. -/
def rowColumns (idField : Value) (rows : List Entries) : List Value :=
  Value.distinct ((rows.flatMap Entries.keys).filter fun key => !key.equals idField)

def identityOf (idField : Value) (row : Entries) : Value := (Entries.get? idField row).getD .null

/-- The values of a column's cases: for each row that has it, the identity and the new value. -/
def caseParams (idField column : Value) : List Entries → Except Error (List Value)
  | [] => .ok []
  | row :: rest =>
    match Entries.get? column row with
    | some v => do
      let stored ← v.stored
      return identityOf idField row :: stored :: (← caseParams idField column rest)
    | none => caseParams idField column rest

/-- A column by cases of the identity; rows without it keep their value. -/
def caseText (idField column : Value) (rows : List Entries) : String :=
  let whens := (rows.filter fun row => Entries.has row column).map fun _ => "WHEN ? THEN ?"
  column.text ++ " = CASE " ++ idField.text ++ " " ++ " ".intercalate whens ++ " ELSE "
    ++ column.text ++ " END"

def cases (idField : Value) (rows : List Entries) : List Value → Except Error Assignments
  | [] => .ok {}
  | column :: rest => do
    let params ← caseParams idField column rows
    let first : Assignments := ⟨[caseText idField column rows], params⟩
    return first.append (← cases idField rows rest)

/-- The filter beside the identities; one that always holds is left out with its values. -/
def extraCondition (clause : String) (params : List Value) : String × List Value :=
  if clause = Dialect.alwaysTrue then ("", []) else (" AND (" ++ clause ++ ")", params)

def bulkUpdate (scope : Scope) (u : Update) (rows : List Entries) : Work Statement := do
  let columns := rowColumns u.idField rows
  if rows.isEmpty then
    throw (configurationError .noRows)
  else if columns.isEmpty then
    throw (generationError (.noColumns u.idField))
  else
    let a ← cases u.idField rows columns
    let (clause, params) ← Compile.collect [] (Filter.compile scope "UPDATE" u.filter.toTree)
    let (extra, extraParams) := extraCondition clause params
    return ⟨u.head a.texts ++ u.idField.text ++ " IN (" ++ Dialect.placeholders rows.length ++ ")"
        ++ extra,
      a.params ++ rows.map (identityOf u.idField) ++ extraParams⟩

def compile (scope : Scope) (u : Update) : Work Statement := do
  if u.filter.isEmpty then
    throw (missingFilter .update u.table)
  else
    let s ←
      match u.payload with
      | some (.operations operations) => u.operatorUpdate scope operations
      | some (.rows rows) => u.bulkUpdate scope rows
      | none => throw (configurationError .noPayload)
    let statement : Statement := ⟨s.sql ++ singleLimit u.single, s.params⟩
    Work.note (.compiled .update statement)
    return statement

end Update

end BoundQuery
