import BoundQuery.Error
import BoundQuery.Filter.Operator

/-! The four shapes that an entry of a filter can have. -/
namespace BoundQuery

inductive Entry where
  | group (connective : Connective) (children : List Value)
  | subquery (field : Value) (ref : SubQueryRef)
  | operators (field : Value) (entries : Entries)
  | literal (field value : Value)

namespace Entry

/-- The filters of a group are maps. -/
def checkChildren (operator context : String) : List Value → Except Error Unit
  | [] => .ok ()
  | .map _ :: rest => checkChildren operator context rest
  | v :: _ => .error (.malformed (.groupMember operator v.kind) (.str context))

/-- A marked key at the top of a filter names a connective, which joins a list of filters. -/
def connective (operator context : String) : Except Error Connective :=
  match Connective.ofName? operator with
  | some c => .ok c
  | none => .error (.unsupported (.str "") (.str operator) (.str context))

def groupError (operator context : String) (v : Value) : Error :=
  .malformed (.groupKind operator v.kind) (.str context)

def classify (key value : Value) (context : String) : Except Error Entry :=
  match key.operator? with
  | some operator => do
    let c ← connective operator context
    match value.sequence? with
    | some children => do
      checkChildren operator context children
      return .group c children
    | none => .error (groupError operator context value)
  | none =>
    .ok <| match value with
    | .subquery ref => .subquery key ref
    | .map entries => .operators key entries
    | v => .literal key v

end Entry

end BoundQuery
