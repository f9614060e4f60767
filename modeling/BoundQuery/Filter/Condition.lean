import BoundQuery.Filter.Entry
import BoundQuery.Registry.Basic
import BoundQuery.Value.Items
import BoundQuery.Value.Json

/-! Filters as SQL conditions. A filter is walked once, from left to right; each value it
compares with is bound when its placeholder is written, so that placeholders and values stay in
one order. Handlers of the registry come before the operators of the library. -/
namespace BoundQuery

/-- What a filter is compiled with: a registry, and how sub-queries are compiled. -/
structure Scope where
  registry : Registry
  embed : SubQueryRef → Work Statement

namespace Filter

/-- Adds a step to the path that errors report. -/
def step (context name : String) : String := context ++ "->" ++ name

def childContext (context operator : String) (index : Nat) : String :=
  step context (operator ++ "[" ++ toString index ++ "]")

/-- The field against the rows of a sub-query. -/
def membership (scope : Scope) (field : Value) (ref : SubQueryRef) (keyword : String) :
    Compile Value := do
  let s ← scope.embed ref
  Compile.bindAll s.params
  return .str (field.text ++ " " ++ keyword ++ " " ++ s.sql)

/-- The items of a list with sub-queries in it, each written in its place. -/
def mixedItems (scope : Scope) : List Value → Compile (List String)
  | [] => pure []
  | .subquery ref :: rest => do
    let s ← scope.embed ref
    Compile.bindAll s.params
    return s.sql :: (← mixedItems scope rest)
  | v :: rest => do
    Compile.bindValue v
    return "?" :: (← mixedItems scope rest)

/-- One containment test for each item, which is bound as JSON text. -/
def containments (field : Value) : List Value → Compile (List String)
  | [] => pure []
  | v :: rest => do
    Compile.bindValue (.str (← v.json))
    return Dialect.jsonContains field.text :: (← containments field rest)

def listClause (field : Value) (m : Membership) (items : String) : Value :=
  .str (field.text ++ " " ++ m.keyword ++ " (" ++ items ++ ")")

def memberOf (scope : Scope) (field : Value) (operator : String) (m : Membership)
    (context : String) (values : List Value) : Compile Value := do
  if values.isEmpty then
    Compile.note (.emptyList operator field context)
    return .str m.ofEmpty
  else if values.any Value.isSubquery then
    return listClause field m (", ".intercalate (← mixedItems scope values))
  else
    match m with
    | .containsAll =>
      return .str ("(" ++ " AND ".intercalate (← containments field values) ++ ")")
    | m =>
      Compile.bindAll values
      return listClause field m (Dialect.placeholders values.length)

/-- What is compared with for a pattern: its source, or any other operand itself. -/
def patternSource : Value → Value
  | .pattern source => .str source
  | v => v

def matchesPattern (field operand : Value) : Compile Value := do
  Compile.bindValue (patternSource operand)
  return .str (Dialect.regexMatch field.text)

def compared (field : Value) (symbol : String) (operand : Value) : Compile Value := do
  Compile.bindValue operand
  return .str (field.text ++ " " ++ symbol ++ " ?")

def negated (clause : Value) : Value := .str ("NOT (" ++ clause.text ++ ")")

/-- An operator of the library whose operand holds no further operators. -/
def applySimple (scope : Scope) (field : Value) (name : String) (operator : Operator)
    (context : String) (operand : Value) : Compile Value :=
  match operator with
  | .compare c => compared field c.symbol operand
  | .member m =>
    match operand.sequence? with
    | some values => memberOf scope field name m context values
    | none => throw (.malformed (.listExpected name field operand.kind) (.str context))
  | .present =>
    pure (.str (field.text ++ if operand.truthy then " IS NOT NULL" else " IS NULL"))
  | .size => do
    Compile.bindValue operand
    return .str (Dialect.jsonLength field.text)
  | .element => do
    Compile.bindValue (.str (← operand.json))
    return .str (Dialect.jsonContains field.text)
  | .regex => matchesPattern field operand
  | .like => do
    Compile.bindValue operand
    return .str (Dialect.likeMatch field.text)
  | .negation =>
    match operand with
    | .str _ | .pattern _ => negated <$> matchesPattern field operand
    | _ => throw (.malformed (.emptyNegation field) (.str context))

def plugged (handler : Handler) (field : Value) (name : String) (context : String)
    (operand : Value) : Compile Value := do
  let clause ← handler.run field operand context
  Compile.note (.plugged name context field clause)
  return clause

/-- The clauses of one field, all of which have to hold. -/
def conjoined : List Value → Except Error Value
  | [] => .ok (.str "")
  | [clause] => .ok clause
  | clauses => do return .str ("(" ++ (← Value.join " AND " clauses) ++ ")")

/-- The whole condition, given the conditions of the entries. -/
def condition (context : String) (clauses : List Value) : Compile String := do
  let text ← if clauses.isEmpty then pure Dialect.alwaysTrue else Value.join " AND " clauses
  let d ← get
  Compile.note (.condition context text d.params)
  return text

mutual

def compile (scope : Scope) (context : String) : Value → Compile String
  | .null => condition context []
  | .map entries => do condition context (← entryClauses scope context entries)
  | v => throw (.malformed (.filterKind v.kind) (.str context))

/-- The clauses of a filter's entries; an entry without a clause restricts nothing. -/
def entryClauses (scope : Scope) (context : String) : List (Value × Value) → Compile (List Value)
  | [] => pure []
  | (key, value) :: rest => do
    let clause ← entryClause scope context key value
    let clauses ← entryClauses scope context rest
    return if clause.truthy then clause :: clauses else clauses

def entryClause (scope : Scope) (context : String) (key : Value) (value : Value) : Compile Value :=
  match key.operator? with
  | some operator => do
    let c ← Entry.connective operator context
    match value with
    | .list children => do
      Entry.checkChildren operator context children
      return .str (c.combine (← childClauses scope context operator 0 children))
    | .tuple children => do
      Entry.checkChildren operator context children
      return .str (c.combine (← childClauses scope context operator 0 children))
    | v => throw (Entry.groupError operator context v)
  | none =>
    match value with
    | .subquery ref => membership scope key ref "IN"
    | .map entries => do
      conjoined (← operatorClauses scope key (step context key.text) entries)
    | v => compared key "=" v

/-- The conditions of a group's filters; one that always holds is left out. -/
def childClauses (scope : Scope) (context operator : String) (index : Nat) :
    List Value → Compile (List String)
  | [] => pure []
  | child :: rest => do
    let clause ← compile scope (childContext context operator index) child
    let clauses ← childClauses scope context operator (index + 1) rest
    return if clause = "" ∨ clause = Dialect.alwaysTrue then clauses else clause :: clauses

/-- The clauses of one field. A key without a mark compares the field itself. -/
def operatorClauses (scope : Scope) (field : Value) (context : String) :
    List (Value × Value) → Compile (List Value)
  | [] => pure []
  | (key, operand) :: rest => do
    let clause ←
      match key.operator? with
      | some operator => applyOperator scope field operator context operand
      | none => compared field "=" operand
    return clause :: (← operatorClauses scope field context rest)

def applyOperator (scope : Scope) (field : Value) (name context : String) (operand : Value) :
    Compile Value :=
  match scope.registry.find? name with
  | some handler => plugged handler field name context operand
  | none =>
    match operand with
    | .subquery ref => membership scope field ref (if name = "$nin" then "NOT IN" else "IN")
    | .map (entry :: entries) =>
      match Operator.ofName? name with
      | none => throw (.unsupported field (.str name) (.str context))
      | some .negation => do
        let clauses ← operatorClauses scope field (step context "$not") (entry :: entries)
        negated <$> (conjoined clauses : Except Error Value)
      | some operator => applySimple scope field name operator context (.map (entry :: entries))
    | operand =>
      match Operator.ofName? name with
      | none => throw (.unsupported field (.str name) (.str context))
      | some operator => applySimple scope field name operator context operand

end

end Filter

end BoundQuery
