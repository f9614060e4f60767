import BoundQuery.Builder
import BoundQuery.Proofs.Document
import BoundQuery.Proofs.Spelling

/-! How statements are written, as rules: each value stands in the fragments at the place it is
for. What handlers and sub-queries write is left open. -/
namespace BoundQuery

open Fragments

def Delete.Spells (V : Vocabulary) (d : Delete) (fs : Fragments) : Prop :=
  ∃ condition, Filter.Spells V d.filter.toTree condition ∧
    fs = around ("DELETE FROM " ++ d.table ++ " WHERE ") condition (singleLimit d.single)

/-- The condition of a SELECT; without a filter there is none. -/
inductive Select.SpellsCondition (V : Vocabulary) (q : Select) : List Fragments → Prop
  | none (empty : q.filter.isEmpty = true) : SpellsCondition V q []
  | given {condition : Fragments} (nonempty : q.filter.isEmpty = false)
      (filter : Filter.Spells V q.filter.toTree condition) :
      SpellsCondition V q [.text "WHERE " :: condition]

def Select.Spells (V : Vocabulary) (q : Select) (fs : Fragments) : Prop :=
  ∃ columns condition, q.SpellsCondition V condition ∧
    (∃ j k, Projection.clause q.table q.joins q.projection j = .ok columns k) ∧
    fs = joined " " (texts (["SELECT " ++ columns, "FROM " ++ q.table] ++ q.joins.map Join.clause) ++
      condition ++ texts (Plan.clause "ORDER BY" ((q.order.map Order.clause).getD "") ++
        Plan.paging q.limit q.offset))

def UpdateOperator.spelled (field : String) (v : Value) : UpdateOperator → Fragments
  | put => [.text (field ++ " = "), .value v]
  | increase => [.text (field ++ " = " ++ field ++ " + "), .value v]
  | multiply => [.text (field ++ " = " ++ field ++ " * "), .value v]
  | unset => [.text (field ++ " = NULL")]

namespace Update

inductive SpellsOperation (name : String) : Value → List Fragments → Prop
  | unset {operand : Value} {fields : List Value}
      (known : UpdateOperator.ofName? name = some .unset) (named : unsetFields operand = .ok fields) :
      SpellsOperation name operand (texts (fields.map fun f => f.text ++ " = NULL"))
  | assigned {operator : UpdateOperator} {es : Entries} {rows : List Fragments}
      (known : UpdateOperator.ofName? name = some operator) (binds : operator ≠ .unset)
      (fields : List.Forall₂ (fun e fs => ∃ v, operator.bound e.2 = .ok v ∧
        fs = operator.spelled e.1.text v) es rows) : SpellsOperation name (.map es) rows

inductive SpellsOperations : Entries → List Fragments → Prop
  | nil : SpellsOperations [] []
  | cons {key operand : Value} {es : Entries} {first rest : List Fragments}
      (head : SpellsOperation key.text operand first) (tail : SpellsOperations es rest) :
      SpellsOperations ((key, operand) :: es) (first ++ rest)

/-- The cases of a column: for each row that has it, the identity and the new value. -/
inductive SpellsCases (idField column : Value) : List Entries → List Fragments → Prop
  | nil : SpellsCases idField column [] []
  | absent {row : Entries} {rows : List Entries} {cases : List Fragments}
      (lacking : Entries.get? column row = none) (rest : SpellsCases idField column rows cases) :
      SpellsCases idField column (row :: rows) cases
  | present {row : Entries} {rows : List Entries} {v w : Value} {cases : List Fragments}
      (found : Entries.get? column row = some v) (stored : v.StoredAs w)
      (rest : SpellsCases idField column rows cases) :
      SpellsCases idField column (row :: rows)
        ([.text "WHEN ", .value (identityOf idField row), .text " THEN ", .value w] :: cases)

def SpellsColumn (idField : Value) (rows : List Entries) (column : Value) (fs : Fragments) : Prop :=
  ∃ cases, SpellsCases idField column rows cases ∧
    fs = around (column.text ++ " = CASE " ++ idField.text ++ " ") (joined " " cases)
      (" ELSE " ++ column.text ++ " END")

/-- The filter beside the identities; one that always holds is left out. -/
inductive SpellsExtra (V : Vocabulary) (tree : Value) : Fragments → Prop
  | vacuous {condition : Fragments} (filter : Filter.Spells V tree condition)
      (always : condition.sql = Dialect.alwaysTrue) : SpellsExtra V tree []
  | restricting {condition : Fragments} (filter : Filter.Spells V tree condition)
      (sometimes : condition.sql ≠ Dialect.alwaysTrue) :
      SpellsExtra V tree (around " AND (" condition ")")

def heading (u : Update) (assignments : List Fragments) : Fragments :=
  around ("UPDATE " ++ u.table ++ " SET ") (joined ", " assignments) " WHERE "

inductive Spells (V : Vocabulary) (u : Update) : Fragments → Prop
  | operations {es : Entries} {assignments : List Fragments} {condition : Fragments}
      (payload : u.payload = some (.operations es)) (assigned : SpellsOperations es assignments)
      (filter : Filter.Spells V u.filter.toTree condition) :
      Spells V u (u.heading assignments ++ condition ++ [.text (singleLimit u.single)])
  | rows {rows : List Entries} {columns : List Fragments} {extra : Fragments}
      (payload : u.payload = some (.rows rows))
      (assigned : List.Forall₂ (SpellsColumn u.idField rows) (rowColumns u.idField rows) columns)
      (filter : SpellsExtra V u.filter.toTree extra) :
      Spells V u (u.heading columns ++ around (u.idField.text ++ " IN (")
        (joined ", " (values (rows.map (identityOf u.idField)))) ")" ++ extra ++
        [.text (singleLimit u.single)])

end Update

namespace Insert

def SpellsRow (columns : List Value) (document : Entries) (fs : Fragments) : Prop :=
  ∃ vs, List.Forall₂ (fun column v => ((Entries.get? column document).getD .null).StoredAs v)
    columns vs ∧ fs = around "(" (joined ", " (values vs)) ")"

def Spells (i : Insert) (fs : Fragments) : Prop :=
  ∃ first rest names rows upsert, i.documents = first :: rest ∧
    Value.join ", " (Entries.keys first) = .ok names ∧
    List.Forall₂ (SpellsRow (Entries.keys first)) i.documents rows ∧
    i.upsertClause (Entries.keys first) = .ok upsert ∧
    fs = around ("INSERT INTO " ++ i.table ++ " (" ++ names ++ ") VALUES ") (joined ", " rows) upsert

end Insert

def Stage.isCondition : Stage → Bool
  | filter _ => true
  | having _ => true
  | _ => false

namespace Plan

def restrictingRows (condition : Fragments) : List Fragments :=
  if condition.sql = Dialect.alwaysTrue then [] else [condition]

inductive SpellsStage (V : Vocabulary) : Stage → List Fragments → List Fragments → Prop
  | filter {tree : Fields} {condition : Fragments} (spelled : Filter.Spells V tree.toValue condition) :
      SpellsStage V (.filter tree) (restrictingRows condition) []
  | having {tree : Fields} {condition : Fragments} (spelled : Filter.Spells V tree.toValue condition) :
      SpellsStage V (.having tree) [] (restrictingRows condition)
  | other {stage : Stage} (plain : stage.isCondition = false) : SpellsStage V stage [] []

inductive SpellsStages (V : Vocabulary) : List Stage → List Fragments → List Fragments → Prop
  | nil : SpellsStages V [] [] []
  | cons {stage : Stage} {stages : List Stage} {conditions having : List Fragments}
      {conditions' having' : List Fragments} (first : SpellsStage V stage conditions having)
      (rest : SpellsStages V stages conditions' having') :
      SpellsStages V (stage :: stages) (conditions ++ conditions') (having ++ having')

def conjunctionRows (keyword : String) : List Fragments → List Fragments
  | [] => []
  | conditions => [.text (keyword ++ " ") :: joined " AND " conditions]

end Plan

/-- The clauses of a pipeline that hold no values are those of its plan. -/
def Aggregate.Spells (V : Vocabulary) (a : Aggregate) (fs : Fragments) : Prop :=
  ∃ plan conditions having, (∃ scope j k, Plan.run scope a.table {} a.stages j = .ok plan k) ∧
    Plan.SpellsStages V a.stages conditions having ∧
    fs = joined " " (texts (["SELECT " ++ plan.select, "FROM " ++ a.table] ++ plan.joins ++
        plan.comments) ++ Plan.conjunctionRows "WHERE" conditions ++
      texts (Plan.clause "GROUP BY" plan.groupBy) ++ Plan.conjunctionRows "HAVING" having ++
      texts (Plan.clause "ORDER BY" plan.order ++ Plan.paging plan.limit plan.offset))

def Builder.Spells (V : Vocabulary) : Builder → Fragments → Prop
  | .select q => q.Spells V
  | .update u => u.Spells V
  | .delete d => d.Spells V
  | .insert i => i.Spells
  | .aggregate a => a.Spells V

end BoundQuery
