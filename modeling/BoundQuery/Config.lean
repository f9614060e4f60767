import BoundQuery.Text.Blank
import BoundQuery.Text.Upper
import BoundQuery.Value.Basic

/-! Defaults. -/
namespace BoundQuery

structure Config where
  limit : Value := .int 10
  orderBy : Value := .str "id DESC"
  idField : Value := .str "id"
  logLevel : Value := .str "ERROR"

namespace Config

def levelVariable : String := "DOCSQL_LOG_LEVEL"

def levelNames : List String := ["DEBUG", "INFO", "WARNING", "ERROR", "CRITICAL"]

/-- The level that the environment asks for, if it is one of the known levels. -/
def ofEnvironment (environment : List (String × String)) : Config :=
  let asked := (environment.lookup levelVariable).getD ""
  let level := Text.upper (String.ofList (Text.strip Text.isBlank asked.toList))
  if levelNames.contains level then { logLevel := .str level } else {}

end Config

end BoundQuery
