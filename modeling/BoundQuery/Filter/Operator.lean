import BoundQuery.Dialect

/-! The operators of filters. A connective joins whole filters; an operator is applied to one
field. -/
namespace BoundQuery

inductive Connective where
  | all
  | any
  | none
deriving DecidableEq, Inhabited

namespace Connective

def name : Connective → String
  | all => "$and"
  | any => "$or"
  | none => "$nor"

def ofName? (s : String) : Option Connective :=
  if s = "$and" then some .all
  else if s = "$or" then some .any
  else if s = "$nor" then some .none
  else Option.none

@[simp] theorem ofName?_name (c : Connective) : ofName? c.name = some c := by
  cases c <;> rfl

def parenthesized (clause : String) : String := "(" ++ clause ++ ")"

/-- The text of a group of filters, given those that restrict anything. -/
def combine : Connective → List String → String
  | all, [] => Dialect.alwaysTrue
  | all, clauses => " AND ".intercalate (clauses.map parenthesized)
  | any, [] => Dialect.alwaysFalse
  | any, clauses => "(" ++ " OR ".intercalate (clauses.map parenthesized) ++ ")"
  | none, [] => Dialect.alwaysTrue
  | none, clauses => "NOT (" ++ " OR ".intercalate (clauses.map parenthesized) ++ ")"

end Connective

inductive Comparison where
  | eq
  | ne
  | gt
  | ge
  | lt
  | le
deriving DecidableEq, Inhabited

def Comparison.symbol : Comparison → String
  | eq => "="
  | ne => "<>"
  | gt => ">"
  | ge => ">="
  | lt => "<"
  | le => "<="

/-- Operators that take a list of values. -/
inductive Membership where
  | among
  | outside
  | containsAll
deriving DecidableEq, Inhabited

namespace Membership

/-- No value is among none; every value is outside of none and contains all of none. -/
def ofEmpty : Membership → String
  | among => Dialect.alwaysFalse
  | outside => Dialect.alwaysTrue
  | containsAll => Dialect.alwaysTrue

def keyword : Membership → String
  | outside => "NOT IN"
  | _ => "IN"

end Membership

inductive Operator where
  | compare (c : Comparison)
  | member (m : Membership)
  | present
  | size
  | element
  | regex
  | like
  | negation
deriving DecidableEq, Inhabited

def Operator.ofName? (s : String) : Option Operator :=
  if s = "$eq" then some (.compare .eq)
  else if s = "$ne" then some (.compare .ne)
  else if s = "$gt" then some (.compare .gt)
  else if s = "$gte" then some (.compare .ge)
  else if s = "$lt" then some (.compare .lt)
  else if s = "$lte" then some (.compare .le)
  else if s = "$in" then some (.member .among)
  else if s = "$nin" then some (.member .outside)
  else if s = "$all" then some (.member .containsAll)
  else if s = "$exists" then some .present
  else if s = "$size" then some .size
  else if s = "$elemMatch" then some .element
  else if s = "$regex" then some .regex
  else if s = "$like" then some .like
  else if s = "$not" then some .negation
  else none

end BoundQuery
