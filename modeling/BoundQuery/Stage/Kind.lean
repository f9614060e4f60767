/-! The kinds of pipeline stages. -/
namespace BoundQuery

inductive StageKind where
  | filter
  | group
  | project
  | sort
  | limit
  | skip
  | lookup
  | unwind
  | having
deriving DecidableEq, Inhabited

namespace StageKind

def name : StageKind → String
  | filter => "$match"
  | group => "$group"
  | project => "$project"
  | sort => "$sort"
  | limit => "$limit"
  | skip => "$skip"
  | lookup => "$lookup"
  | unwind => "$unwind"
  | having => "$having"

def all : List StageKind := [filter, group, project, sort, limit, skip, lookup, unwind, having]

def ofName? (s : String) : Option StageKind := all.find? fun k => k.name == s

@[simp] theorem ofName?_name (k : StageKind) : ofName? k.name = some k := by
  cases k <;> rfl

/-- The field of the model that holds a stage's content; a lookup has several. -/
def field : StageKind → String
  | filter => "filter"
  | group => "spec"
  | project => "columns"
  | sort => "spec"
  | limit => "value"
  | skip => "value"
  | lookup => ""
  | unwind => "path"
  | having => "filter"

end StageKind

end BoundQuery
