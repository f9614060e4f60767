import BoundQuery.Value.Show

/-! Statements, and the events that compiling them reports. -/
namespace BoundQuery

/-- SQL text with a placeholder for each bound value, and the values in the order of their
placeholders. -/
structure Statement where
  sql : String
  params : List Value := []

inductive StatementKind where
  | select
  | update
  | delete
  | insert
  | aggregate
deriving DecidableEq, Inhabited

def StatementKind.name : StatementKind → String
  | select => "SELECT"
  | update => "UPDATE"
  | delete => "DELETE"
  | insert => "INSERT"
  | aggregate => "AGGREGATE"

inductive Level where
  | debug
  | info
deriving DecidableEq, Inhabited

def Level.name : Level → String
  | debug => "DEBUG"
  | info => "INFO"

def Level.rank : Level → Int
  | debug => 10
  | info => 20

inductive Event where
  | registered (operator : String)
  | plugged (operator context : String) (field clause : Value)
  | emptyList (operator : String) (field : Value) (context : String)
  | condition (context text : String) (params : List Value)
  | cached (text : String)
  | projection (text : String)
  | group (select groupBy : String)
  | compiled (kind : StatementKind) (statement : Statement)

namespace Event

def level : Event → Level
  | compiled _ _ => .info
  | _ => .debug

/-- The part of the library that reports an event. -/
def origin : Event → String
  | registered _ => "docsql.compile.registry"
  | plugged _ _ _ _ => "docsql.compile.filter_translator"
  | emptyList _ _ _ => "docsql.compile.filter_translator"
  | condition _ _ _ => "docsql.compile.filter_translator"
  | cached _ => "docsql.compile.subquery"
  | projection _ => "docsql.compile.clause_builders"
  | group _ _ => "docsql.compile.clause_builders"
  | compiled kind _ =>
    match kind with
    | .select => "docsql.statements.select"
    | .update => "docsql.statements.update"
    | .delete => "docsql.statements.delete"
    | .insert => "docsql.statements.insert"
    | .aggregate => "docsql.compile.aggregation"

def withParams (text : String) (params : List Value) : String :=
  text ++ " params=" ++ (Value.list params).shown

def message : Event → String
  | registered operator => "Registered operator plugin " ++ operator
  | plugged operator context field clause =>
    "Plugin " ++ operator ++ " (" ++ context ++ ") for " ++ field.text ++ ": " ++ clause.text
  | emptyList operator field context =>
    "Empty " ++ operator ++ " list for field " ++ field.text ++ " (" ++ context ++ ")"
  | condition context text params => withParams ("WHERE fragment (" ++ context ++ "): " ++ text) params
  | cached text => "Cached subquery SQL: " ++ text
  | projection text => "Projection: " ++ text
  | group select groupBy =>
    "Group clause: GroupClause(select=" ++ Text.quoted select ++ ", group_by=" ++ Text.quoted groupBy
      ++ ")"
  | compiled kind s =>
    match kind with
    | .aggregate => withParams ("Aggregation SQL: " ++ s.sql) s.params
    | kind => withParams (kind.name ++ " SQL: " ++ s.sql) s.params

def line (e : Event) : String :=
  "[" ++ e.level.name ++ "] " ++ e.origin ++ ": " ++ e.message ++ "\n"

end Event

end BoundQuery
