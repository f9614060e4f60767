import BoundQuery.Filter.Condition
import BoundQuery.Proofs.Names

/-! What a filter asks of the scope it is compiled in: handlers for the operators it applies, and
the statements of its sub-queries. Scopes that answer alike compile it alike. -/
namespace BoundQuery

inductive Demand where
  | operator (field : Value) (name : String) (operand : Value)
  | subquery (ref : SubQueryRef)

/-- The two scopes answer the demand alike: with handlers that do the same for it, if there are
any, and with the same statement. -/
def Scope.AgreeOn (scope scope' : Scope) : Demand → Prop
  | .operator field name operand =>
    (scope.registry.find? name).map (· field operand) =
      (scope'.registry.find? name).map (· field operand)
  | .subquery ref => scope.embed ref = scope'.embed ref

namespace Filter

def itemDemands : List Value → List Demand
  | [] => []
  | .subquery ref :: rest => .subquery ref :: itemDemands rest
  | _ :: rest => itemDemands rest

mutual

/-- The demands of the operators of one field; only below a negation there are further ones. -/
def operatorsDemands (field : Value) : List (Value × Value) → List Demand
  | [] => []
  | (key, operand) :: rest =>
    (match key.operator? with
      | some name => .operator field name operand :: operandDemands field name operand
      | none => []) ++ operatorsDemands field rest

def operandDemands (field : Value) (name : String) : Value → List Demand
  | .subquery ref => [.subquery ref]
  | .list items => itemDemands items
  | .tuple items => itemDemands items
  | .map entries =>
    match Operator.ofName? name with
    | some .negation => operatorsDemands field entries
    | _ => []
  | _ => []

end

mutual

def demands : Value → List Demand
  | .map entries => entriesDemands entries
  | _ => []

def entriesDemands : List (Value × Value) → List Demand
  | [] => []
  | (key, value) :: rest => entryDemands key value ++ entriesDemands rest

def entryDemands (key : Value) (value : Value) : List Demand :=
  match key.operator? with
  | some _ =>
    match value with
    | .list children => childrenDemands children
    | .tuple children => childrenDemands children
    | _ => []
  | none =>
    match value with
    | .subquery ref => [.subquery ref]
    | .map entries => operatorsDemands key entries
    | _ => []

def childrenDemands : List Value → List Demand
  | [] => []
  | child :: rest => demands child ++ childrenDemands rest

end

theorem mem_entriesDemands {es : List (Value × Value)} {key value : Value} {d : Demand}
    (hmem : (key, value) ∈ es) (hd : d ∈ entryDemands key value) : d ∈ entriesDemands es := by
  induction es with
  | nil => cases hmem
  | cons e es ih =>
    rw [entriesDemands, List.mem_append]
    rcases List.mem_cons.mp hmem with rfl | hmem
    · exact .inl hd
    · exact .inr (ih hmem)

theorem operandDemands_of_sequence? {field v : Value} {vs : List Value} (hvs : v.sequence? = some vs)
    (name : String) : operandDemands field name v = itemDemands vs := by
  cases v with
  | list items =>
    obtain rfl := Option.some.inj hvs
    rw [operandDemands]
  | tuple items =>
    obtain rfl := Option.some.inj hvs
    rw [operandDemands]
  | _ => cases hvs

end Filter

end BoundQuery
