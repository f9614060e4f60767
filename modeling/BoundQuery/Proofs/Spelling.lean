import BoundQuery.Filter.Condition
import BoundQuery.Proofs.Fragment
import Mathlib.Data.List.Forall2

/-! How filters are written, as rules: each rule says which fragments stand for a part of a filter,
given the fragments of its parts. What handlers and sub-queries write is left open. -/
namespace BoundQuery

/-- What handlers write for a field and an operand, and what is written for a sub-query. -/
structure Vocabulary where
  handler : String → Option (Value → Value → Statement → Prop)
  subquery : SubQueryRef → Statement → Prop

open Fragments

/-- The fragments of a group of filters, given those that restrict anything. -/
def Connective.spelled (c : Connective) (rows : List Fragments) : Fragments :=
  let parts := rows.map fun fs => around "(" fs ")"
  match c, rows with
  | all, [] => [.text Dialect.alwaysTrue]
  | all, _ => joined " AND " parts
  | any, [] => [.text Dialect.alwaysFalse]
  | any, _ => around "(" (joined " OR " parts) ")"
  | none, [] => [.text Dialect.alwaysTrue]
  | none, _ => around "NOT (" (joined " OR " parts) ")"

namespace Filter

def conjunction : List Fragments → Fragments
  | [] => [.text Dialect.alwaysTrue]
  | rows => joined " AND " rows

@[simp] theorem params_conjunction (rows : List Fragments) :
    (conjunction rows).params = rows.flatMap params := by
  cases rows <;> simp [conjunction, Fragment.params]

def fieldConjunction : List Fragments → Fragments
  | [] => []
  | [fs] => fs
  | rows => around "(" (joined " AND " rows) ")"

@[simp] theorem params_fieldConjunction (rows : List Fragments) :
    (fieldConjunction rows).params = rows.flatMap params := by
  match rows with
  | [] => rfl
  | [fs] => simp [fieldConjunction]
  | fs :: gs :: rows => simp [fieldConjunction]

def comparison (field : Value) (symbol : String) (v : Value) : Fragments :=
  [.text (field.text ++ " " ++ symbol ++ " "), .value v]

def patternMatch (field v : Value) : Fragments :=
  [.text (field.text ++ " REGEXP "), .value (patternSource v)]

def containment (field : Value) (json : String) : Fragments :=
  around ("JSON_CONTAINS(" ++ field.text ++ ", ") [.value (.str json)] ")"

def membersOf (field : Value) (m : Membership) (items : List Fragments) : Fragments :=
  around (field.text ++ " " ++ m.keyword ++ " (") (joined ", " items) ")"

def rowsOf (field : Value) (keyword : String) (s : Statement) : Fragments :=
  [.text (field.text ++ " " ++ keyword ++ " "), .whole s]

section

variable (field v : Value) (symbol keyword json : String) (m : Membership) (items : List Fragments)
  (s : Statement)

@[simp] theorem sql_comparison :
    (comparison field symbol v).sql = field.text ++ " " ++ symbol ++ " ?" := by
  simp [comparison, Fragment.sql, String.append_assoc]

@[simp] theorem params_comparison : (comparison field symbol v).params = [v] := rfl

@[simp] theorem sql_patternMatch : (patternMatch field v).sql = Dialect.regexMatch field.text := by
  simp [patternMatch, Dialect.regexMatch, Fragment.sql, String.append_assoc]

@[simp] theorem params_patternMatch : (patternMatch field v).params = [patternSource v] := rfl

@[simp] theorem sql_containment :
    (containment field json).sql = Dialect.jsonContains field.text := by
  simp [containment, Dialect.jsonContains, Fragment.sql, String.append_assoc]

@[simp] theorem params_containment : (containment field json).params = [.str json] := by
  simp [containment, Fragment.params]

@[simp] theorem sql_membersOf : (membersOf field m items).sql =
    field.text ++ " " ++ m.keyword ++ " (" ++ ", ".intercalate (items.map sql) ++ ")" := by
  simp [membersOf]

@[simp] theorem params_membersOf : (membersOf field m items).params = items.flatMap params := by
  simp [membersOf]

@[simp] theorem sql_rowsOf :
    (rowsOf field keyword s).sql = field.text ++ " " ++ keyword ++ " " ++ s.sql := by
  simp [rowsOf, Fragment.sql]

@[simp] theorem params_rowsOf : (rowsOf field keyword s).params = s.params := by
  simp [rowsOf, Fragment.params]

end

/-- The items of a list, of which sub-queries are written in their places. -/
inductive SpellsItems (V : Vocabulary) : List Value → List Fragments → Prop
  | nil : SpellsItems V [] []
  | subquery {ref : SubQueryRef} {s : Statement} {vs : List Value} {rows : List Fragments}
      (embedded : V.subquery ref s) (rest : SpellsItems V vs rows) :
      SpellsItems V (.subquery ref :: vs) ([.whole s] :: rows)
  | value {v : Value} {vs : List Value} {rows : List Fragments} (plain : v.isSubquery = false)
      (rest : SpellsItems V vs rows) : SpellsItems V (v :: vs) ([.value v] :: rows)

inductive SpellsMembers (V : Vocabulary) (field : Value) :
    Membership → List Value → Fragments → Prop
  | empty (m : Membership) : SpellsMembers V field m [] [.text m.ofEmpty]
  | mixed {m : Membership} {vs : List Value} {rows : List Fragments}
      (some : vs.any Value.isSubquery = true) (items : SpellsItems V vs rows) :
      SpellsMembers V field m vs (membersOf field m rows)
  | contained {vs : List Value} {texts : List String} (nonempty : vs ≠ [])
      (plain : vs.any Value.isSubquery = false)
      (encoded : List.Forall₂ (fun v t => v.json = .ok t) vs texts) :
      SpellsMembers V field .containsAll vs
        (around "(" (joined " AND " (texts.map (containment field))) ")")
  | listed {m : Membership} {vs : List Value} (nonempty : vs ≠ [])
      (plain : vs.any Value.isSubquery = false) (keyword : m ≠ .containsAll) :
      SpellsMembers V field m vs (membersOf field m (values vs))

/-- An operator of the library whose operand holds no further operators. -/
inductive SpellsSimple (V : Vocabulary) (field : Value) : Operator → Value → Fragments → Prop
  | compare (c : Comparison) (v : Value) :
      SpellsSimple V field (.compare c) v (comparison field c.symbol v)
  | member {m : Membership} {v : Value} {vs : List Value} {fs : Fragments}
      (items : v.sequence? = some vs) (members : SpellsMembers V field m vs fs) :
      SpellsSimple V field (.member m) v fs
  | present (v : Value) : SpellsSimple V field .present v
      [.text (field.text ++ if v.truthy then " IS NOT NULL" else " IS NULL")]
  | size (v : Value) : SpellsSimple V field .size v
      [.text ("JSON_LENGTH(" ++ field.text ++ ") = "), .value v]
  | element {v : Value} {t : String} (json : v.json = .ok t) :
      SpellsSimple V field .element v (containment field t)
  | regex (v : Value) : SpellsSimple V field .regex v (patternMatch field v)
  | like (v : Value) : SpellsSimple V field .like v [.text (field.text ++ " LIKE "), .value v]
  | negatedText (s : String) :
      SpellsSimple V field .negation (.str s) (around "NOT (" (patternMatch field (.str s)) ")")
  | negatedPattern (source : String) : SpellsSimple V field .negation (.pattern source)
      (around "NOT (" (patternMatch field (.pattern source)) ")")

mutual

inductive SpellsOperators (V : Vocabulary) (field : Value) : Entries → List Fragments → Prop
  | nil : SpellsOperators V field [] []
  | plain {key operand : Value} {es : Entries} {rows : List Fragments}
      (unmarked : key.operator? = none) (rest : SpellsOperators V field es rows) :
      SpellsOperators V field ((key, operand) :: es) (comparison field "=" operand :: rows)
  | operator {key operand : Value} {name : String} {fs : Fragments} {es : Entries}
      {rows : List Fragments} (marked : key.operator? = some name)
      (first : SpellsOperator V field name operand fs) (rest : SpellsOperators V field es rows) :
      SpellsOperators V field ((key, operand) :: es) (fs :: rows)

inductive SpellsOperator (V : Vocabulary) (field : Value) : String → Value → Fragments → Prop
  | plugged {name : String} {operand : Value} {write : Value → Value → Statement → Prop}
      {s : Statement} (registered : V.handler name = some write) (written : write field operand s) :
      SpellsOperator V field name operand [.whole s]
  | subquery {name : String} {ref : SubQueryRef} {s : Statement} (free : V.handler name = none)
      (embedded : V.subquery ref s) : SpellsOperator V field name (.subquery ref)
        (rowsOf field (if name = "$nin" then "NOT IN" else "IN") s)
  | negation {name : String} {e : Value × Value} {es : Entries} {rows : List Fragments}
      (free : V.handler name = none) (known : Operator.ofName? name = some .negation)
      (operators : SpellsOperators V field (e :: es) rows) :
      SpellsOperator V field name (.map (e :: es)) (around "NOT (" (fieldConjunction rows) ")")
  | simple {name : String} {operator : Operator} {operand : Value} {fs : Fragments}
      (free : V.handler name = none) (known : Operator.ofName? name = some operator)
      (single : operand.isSubquery = false) (simple : SpellsSimple V field operator operand fs) :
      SpellsOperator V field name operand fs

end

mutual

inductive Spells (V : Vocabulary) : Value → Fragments → Prop
  | null : Spells V .null (conjunction [])
  | map {es : Entries} {rows : List Fragments} (entries : SpellsEntries V es rows) :
      Spells V (.map es) (conjunction rows)

/-- The entries of a filter; one that is written as nothing is left out. -/
inductive SpellsEntries (V : Vocabulary) : Entries → List Fragments → Prop
  | nil : SpellsEntries V [] []
  | silent {key value : Value} {fs : Fragments} {es : Entries} {rows : List Fragments}
      (first : SpellsEntry V key value fs) (nothing : fs.sql = "") (rest : SpellsEntries V es rows) :
      SpellsEntries V ((key, value) :: es) rows
  | cons {key value : Value} {fs : Fragments} {es : Entries} {rows : List Fragments}
      (first : SpellsEntry V key value fs) (something : fs.sql ≠ "")
      (rest : SpellsEntries V es rows) : SpellsEntries V ((key, value) :: es) (fs :: rows)

inductive SpellsEntry (V : Vocabulary) : Value → Value → Fragments → Prop
  | group {key value : Value} {name : String} {c : Connective} {children : List Value}
      {rows : List Fragments} (marked : key.operator? = some name)
      (known : Connective.ofName? name = some c) (sequence : value.sequence? = some children)
      (filters : SpellsChildren V children rows) : SpellsEntry V key value (c.spelled rows)
  | subquery {key : Value} {ref : SubQueryRef} {s : Statement} (unmarked : key.operator? = none)
      (embedded : V.subquery ref s) : SpellsEntry V key (.subquery ref) (rowsOf key "IN" s)
  | operators {key : Value} {es : Entries} {rows : List Fragments} (unmarked : key.operator? = none)
      (operators : SpellsOperators V key es rows) :
      SpellsEntry V key (.map es) (fieldConjunction rows)
  | literal {key value : Value} (unmarked : key.operator? = none) (single : value.isSubquery = false)
      (flat : value.entries? = none) : SpellsEntry V key value (comparison key "=" value)

/-- The filters of a group; one that always holds is left out. -/
inductive SpellsChildren (V : Vocabulary) : List Value → List Fragments → Prop
  | nil : SpellsChildren V [] []
  | vacuous {es : Entries} {fs : Fragments} {children : List Value} {rows : List Fragments}
      (first : Spells V (.map es) fs) (always : fs.sql = "" ∨ fs.sql = Dialect.alwaysTrue)
      (rest : SpellsChildren V children rows) : SpellsChildren V (.map es :: children) rows
  | cons {es : Entries} {fs : Fragments} {children : List Value} {rows : List Fragments}
      (first : Spells V (.map es) fs) (restricting : ¬(fs.sql = "" ∨ fs.sql = Dialect.alwaysTrue))
      (rest : SpellsChildren V children rows) : SpellsChildren V (.map es :: children) (fs :: rows)

end

end Filter

end BoundQuery
