import BoundQuery.Filter.Condition

/-! The language of filters, one node at a time. The nodes of a filter are the filter itself, the
entries of its maps and the entries of the operator maps in it; each of them is well formed or not
by itself, and has a place that errors name. -/
namespace BoundQuery.Filter

inductive Node where
  | tree (v : Value)
  /-- An entry of a filter. -/
  | entry (key value : Value)
  /-- An entry of the operator map of a field. -/
  | operator (field key operand : Value)

def groupNames : List String := ["$and", "$or", "$nor"]

def listNames : List String := ["$in", "$nin", "$all"]

def freeNames : List String :=
  ["$eq", "$ne", "$gt", "$gte", "$lt", "$lte", "$exists", "$size", "$elemMatch", "$regex", "$like"]

def isGroup (v : Value) : Bool := v.sequence?.any (·.all (·.entries?.isSome))

/-- What can be negated: a text or pattern to match, or a map with at least one operator. -/
def negatable : Value → Bool
  | .str _ => true
  | .pattern _ => true
  | .map (_ :: _) => true
  | _ => false

def takes (name : String) (operand : Value) : Bool :=
  name ∈ freeNames || (name ∈ listNames && operand.sequence?.isSome) ||
    (name = "$not" && negatable operand)

namespace Node

/-- What the language asks of a node, whatever stands below it. -/
def WellFormed : Node → Prop
  | tree v => (v matches .null | .map _)
  | entry key value => ∀ name ∈ key.operator?, name ∈ groupNames ∧ isGroup value
  | operator _ key operand => ∀ name ∈ key.operator?, takes name operand

instance : DecidablePred WellFormed
  | tree v => inferInstanceAs (Decidable ((v matches .null | .map _) = true))
  | entry key value =>
    inferInstanceAs (Decidable (∀ name ∈ key.operator?, name ∈ groupNames ∧ isGroup value))
  | operator _ key operand => inferInstanceAs (Decidable (∀ name ∈ key.operator?, takes name operand))

/-- How a list that is no group is refused: for the first of its items that is no map. -/
def groupFault (name : String) (value : Value) : Fault :=
  match value.sequence?.bind (·.find? (·.entries?.isNone)) with
  | some child => .groupMember name child.kind
  | none => .groupKind name value.kind

def error (context : String) : Node → Error
  | tree v => .malformed (.filterKind v.kind) (.str context)
  | entry key value =>
    if key.text ∈ groupNames then .malformed (groupFault key.text value) (.str context)
    else .unsupported (.str "") key (.str context)
  | operator field key operand =>
    if key.text ∈ listNames then
      .malformed (.listExpected key.text field operand.kind) (.str context)
    else if key.text = "$not" then .malformed (.emptyNegation field) (.str context)
    else .unsupported field key (.str context)

end Node

/-- A node with the steps that lead to the filter or operator map it stands in. -/
structure Located where
  path : List String
  node : Node

namespace Located

def context (root : String) (n : Located) : String := n.path.foldl step root

def error (root : String) (n : Located) : Error := n.node.error (n.context root)

end Located

section PreOrder

mutual

def operatorNodes (field : Value) (path : List String) : List (Value × Value) → List Located
  | [] => []
  | (key, operand) :: rest =>
    ⟨path, .operator field key operand⟩ ::
      (operandNodes field path key operand ++ operatorNodes field path rest)

/-- The nodes below an operator. Only what is negated can hold operators. -/
def operandNodes (field : Value) (path : List String) (key : Value) : Value → List Located
  | .map entries =>
    if key.operator? = some "$not" then operatorNodes field (path ++ ["$not"]) entries else []
  | _ => []

end

mutual

def treeNodes (path : List String) : Value → List Located
  | .map entries => entriesNodes path entries
  | _ => []

def entriesNodes (path : List String) : List (Value × Value) → List Located
  | [] => []
  | (key, value) :: rest =>
    ⟨path, .entry key value⟩ :: (entryNodes path key value ++ entriesNodes path rest)

/-- The nodes below an entry: those of the filters that a group joins, or of the operators of a
field. -/
def entryNodes (path : List String) (key : Value) (value : Value) : List Located :=
  match key.operator? with
  | some name =>
    match value with
    | .list children => childrenNodes path name 0 children
    | .tuple children => childrenNodes path name 0 children
    | _ => []
  | none =>
    match value with
    | .map entries => operatorNodes key (path ++ [key.text]) entries
    | _ => []

def childrenNodes (path : List String) (name : String) (index : Nat) : List Value → List Located
  | [] => []
  | child :: rest =>
    treeNodes (path ++ [name ++ "[" ++ toString index ++ "]"]) child ++
      childrenNodes path name (index + 1) rest

end

/-- All nodes of a filter, in the order in which they are met in the document. -/
def nodes (tree : Value) : List Located := ⟨[], .tree tree⟩ :: treeNodes [] tree

end PreOrder

end BoundQuery.Filter
