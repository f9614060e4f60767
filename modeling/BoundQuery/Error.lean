import BoundQuery.Value.Show

/-! What can go wrong. A `Fault` is the reason and has the wording of its message; an `Error`
says which part of the library refused and where. A value that does not fit a model is
reported by a list of issues, each with its place and its defect. -/
namespace BoundQuery

/-- A step on the way to a part of a value. -/
inductive Place where
  | name (s : String)
  | index (n : Int)
deriving DecidableEq, Inhabited

inductive Defect where
  | notMap
  | notList
  | notText
  | notUtf8
  | notModel
  | notInteger
  | notIntegerText
  | fractional
  | infinite
  | tooLarge
  | negative
  | missing
  | unknownField
  | unknownKey
deriving DecidableEq, Inhabited

def Defect.name : Defect → String
  | notMap => "dict_type"
  | notList => "list_type"
  | notText => "string_type"
  | notUtf8 => "string_unicode"
  | notModel => "model_type"
  | notInteger => "int_type"
  | notIntegerText => "int_parsing"
  | fractional => "int_from_float"
  | infinite => "finite_number"
  | tooLarge => "int_parsing_size"
  | negative => "greater_than_equal"
  | missing => "missing"
  | unknownField => "extra_forbidden"
  | unknownKey => "invalid_key"

structure Issue where
  place : List Place
  defect : Defect
deriving DecidableEq, Inhabited

/-- Issues are carried as data; in a message this text stands for them. -/
def issueSummary : String := "<validation>"

inductive Fault where
  | raised (message : Value)
  | filterKind (kind : String)
  | groupKind (operator kind : String)
  | groupMember (operator kind : String)
  | listExpected (operator : String) (field : Value) (kind : String)
  | emptyNegation (field : Value)
  | stageShape (stage : Value)
  | stageName (name : Value)
  | stageIssues (name : String) (issues : List Issue)
  | noGroupOutput
  | accumulatorShape (name : String)
  | aggregateName (operator : Value)
  | tableName
  | count (name : String) (value : Value)
  | projectionText
  | joinIssues (issues : List Issue)
  | sortKind
  | emptyPayload
  | mixedPayload
  | payloadKind (kind : String)
  | rowShape (index : Nat) (idField : Value)
  | noPayload
  | unsetOperand
  | updateName (operator : String)
  | updateOperand (operator : String)
  | nothingAssigned
  | noRows
  | noColumns (idField : Value)
  | missingFilter (statement table : String)
  | documentKind (kind : String)
  | documentsKind
  | documentAt (index : Nat)
  | noDocuments (table : String)
  | emptyDocument
  | columnMismatch (index : Nat) (missing extra : List Value)
  | noUpsertFields
  | unknownUpsertFields (fields : List Value)

namespace Fault

def message : Fault → Value
  | raised message => message
  | filterKind kind => .str ("Filter must be a mapping, got " ++ kind)
  | groupKind operator kind =>
    .str ("Logical operator \"" ++ operator ++ "\" expects a list of filters, got " ++ kind)
  | groupMember operator kind =>
    .str ("Logical operator \"" ++ operator ++ "\" expects filter objects, got " ++ kind)
  | listExpected operator field kind =>
    .str ("Operator \"" ++ operator ++ "\" on field \"" ++ field.text ++ "\" expects a list, got "
      ++ kind)
  | emptyNegation field =>
    .str ("Operator \"$not\" on field \"" ++ field.text
      ++ "\" expects a non-empty operator object")
  | stageShape stage => .str ("Pipeline stage must be a single-key object, got " ++ stage.shown)
  | stageName name => .str ("Unsupported pipeline stage \"" ++ name.text ++ "\"")
  | stageIssues name _ => .str ("Invalid \"" ++ name ++ "\" stage: " ++ issueSummary)
  | noGroupOutput => .str "$group stage produces no output columns"
  | accumulatorShape name =>
    .str ("Group output \"" ++ name ++ "\" must be a single-operator accumulator object")
  | aggregateName operator => .str ("Unsupported aggregate operator: " ++ operator.text)
  | tableName => .str "Table name must be a non-empty string"
  | count name value =>
    .str (name ++ " must be a non-negative integer, got " ++ value.shown)
  | projectionText => .str "Projection must be a list or a mapping"
  | joinIssues _ => .str ("Invalid join configuration: " ++ issueSummary)
  | sortKind => .str "Sort must be a string or a mapping of field to direction"
  | emptyPayload => .str "Update payload is empty"
  | mixedPayload => .str "Update payload mixes update operators and plain fields"
  | payloadKind kind =>
    .str ("Update payload must be a mapping or a list of rows, got " ++ kind)
  | rowShape index idField =>
    .str ("Bulk update row " ++ toString index ++ " must be a mapping carrying \""
      ++ idField.text ++ "\"")
  | noPayload => .str "No update payload supplied"
  | unsetOperand => .str "Invalid $unset update: expected a mapping or a list of fields"
  | updateName operator => .str ("Unsupported update operator: " ++ operator)
  | updateOperand operator =>
    .str ("Invalid " ++ operator ++ " update: expected a mapping of fields")
  | nothingAssigned => .str "No fields to update"
  | noRows => .str "Bulk update needs at least one row"
  | noColumns idField =>
    .str ("Bulk update rows carry no columns besides \"" ++ idField.text ++ "\"")
  | missingFilter statement table =>
    .str (statement ++ " on " ++ table ++ " requires a filter (missing filter)")
  | documentKind kind => .str ("Document must be a mapping, got " ++ kind)
  | documentsKind => .str "insert_many expects a list of documents"
  | documentAt index => .str ("Document " ++ toString index ++ " must be a mapping")
  | noDocuments table => .str ("INSERT into " ++ table ++ " requires at least one document")
  | emptyDocument => .str "Cannot insert an empty document"
  | columnMismatch index missing extra =>
    .str ("Document " ++ toString index ++ " does not match the columns of document 0 (missing: "
      ++ (Value.list missing).shown ++ ", extra: " ++ (Value.list extra).shown ++ ")")
  | noUpsertFields => .str "Upsert needs at least one field to refresh"
  | unknownUpsertFields fields =>
    .str ("Upsert fields are not inserted columns: " ++ (Value.list fields).shown)

def issues : Fault → List Issue
  | stageIssues _ issues => issues
  | joinIssues issues => issues
  | _ => []

end Fault

inductive Error where
  | malformed (fault : Fault) (context : Value)
  | unsupported (field operator context : Value)
  | generation (fault : Fault) (context : Value)
  | safety (fault : Fault) (statement : Value)
  | configuration (fault : Fault) (builder : Value)
  | general (arguments : List Value)
  | invalid (issues : List Issue)
  | notCallable (operator : String)
  | notCompilable
  | unknownLevel (name : String)
  /-- A value of a kind that the operation cannot work with. -/
  | unfit
  /-- A sub-query that would have to contain itself. -/
  | circular

namespace Error

/-- The code under which an error is reported to other programs. -/
def code : Error → String
  | malformed _ _ => "TRANSLATION_ERROR"
  | unsupported _ _ _ => "UNSUPPORTED_OPERATOR"
  | generation _ _ => "SQL_GENERATION_ERROR"
  | safety _ _ => "SAFETY_VIOLATION"
  | configuration _ _ => "CONFIGURATION_ERROR"
  | _ => "DOCSQL_ERROR"

def operatorMessage (field operator : Value) : String :=
  if field.truthy then
    "Unsupported operator \"" ++ operator.text ++ "\" for field \"" ++ field.text ++ "\""
  else "Unsupported operator \"" ++ operator.text ++ "\""

/-- A message with the path at which the failure happened, if there is one. -/
def located (message : String) (context : Value) : String :=
  if context.truthy then message ++ " | Context: " ++ context.text else message

def text : Error → String
  | malformed fault context => located fault.message.text context
  | unsupported field operator context => located (operatorMessage field operator) context
  | generation fault context => located fault.message.text context
  | safety fault _ => fault.message.text
  | configuration fault _ => fault.message.text
  | general [] => ""
  | general [message] => message.text
  | general arguments => (Value.tuple arguments).shown
  | invalid _ => issueSummary
  | notCallable operator => "Plugin handler for " ++ Text.quoted operator ++ " must be callable."
  | notCompilable => "SubQuery requires a builder exposing to_sql()."
  | unknownLevel name => "Unknown level: " ++ Text.quoted name
  | unfit => "A value does not fit its use"
  | circular => "A sub-query contains itself"

/-- The structured form of an error. -/
def response (e : Error) : Value :=
  let code := ("error", Value.str e.code)
  Fields.toValue <| match e with
  | malformed fault context => [code, ("message", fault.message), ("context", context)]
  | unsupported field operator context =>
    [code, ("message", .str (operatorMessage field operator)), ("context", context),
      ("details", Fields.toValue [("field", field), ("operator", operator)])]
  | generation fault context => [code, ("message", fault.message), ("context", context)]
  | safety _ statement =>
    [code, ("message", .str e.text), ("details", Fields.toValue [("statement", statement)])]
  | configuration _ builder =>
    [code, ("message", .str e.text), ("details", Fields.toValue [("builder", builder)])]
  | _ => [code, ("message", .str e.text)]

def issues : Error → List Issue
  | malformed fault _ => fault.issues
  | configuration fault _ => fault.issues
  | invalid issues => issues
  | _ => []

end Error

end BoundQuery
