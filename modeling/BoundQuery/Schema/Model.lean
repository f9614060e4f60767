import BoundQuery.Stage.Kind

/-! Models: what a record is a record of. -/
namespace BoundQuery

inductive Model where
  | stage (kind : StageKind)
  | join
deriving DecidableEq, Inhabited

namespace Model

def name : Model → String
  | stage .filter => "MatchStage"
  | stage .group => "GroupStage"
  | stage .project => "ProjectStage"
  | stage .sort => "SortStage"
  | stage .limit => "LimitStage"
  | stage .skip => "SkipStage"
  | stage .lookup => "LookupStage"
  | stage .unwind => "UnwindStage"
  | stage .having => "HavingStage"
  | join => "JoinConfig"

def all : List Model := join :: StageKind.all.map stage

def ofName? (s : String) : Option Model := all.find? fun m => m.name == s

@[simp] theorem ofName?_name (m : Model) : ofName? m.name = some m := by
  rcases m with k | _
  · cases k <;> rfl
  · rfl

end Model

end BoundQuery
