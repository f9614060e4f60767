import BoundQuery.Builder
import BoundQuery.Proofs.Names

/-! The text that a builder takes into its statement as it was given: names of tables, fields and
columns, joins, orders, paths, and the literals of groups. `RawText p` says of each part of a
builder that all such text satisfies `p`. -/
namespace BoundQuery

variable (p : String → Prop)

def Projection.RawText : Projection → Prop
  | .columns items => ∀ v ∈ items, p v.text
  | .entries es => ∀ e ∈ es, p e.1.text ∧ ∀ name, e.2.reference? = some name → p name

structure Join.RawText (j : Join) : Prop where
  table : p j.table
  shortName : ∀ short, j.shortName = some short → p short
  type : p j.type
  on : p j.on

def Order.RawText : Order → Prop
  | .text s => p s
  | .fields es => ∀ e ∈ es, p e.1.text

structure Lookup.RawText (l : Lookup) : Prop where
  source : p l.source
  localField : p l.localField
  foreignField : p l.foreignField
  name : p l.name

namespace GroupClause

/-- The values of an identity that is a map, and the identity itself if it is anything else. -/
def IdentityText : Value → Prop
  | .map es => ∀ e ∈ es, p e.2.text
  | v => p v.text

def AccumulatorText : Value → Prop
  | .map es => ∀ e ∈ es, p e.2.text
  | _ => True

structure RawText (spec : Fields) : Prop where
  identity : IdentityText p (Stage.identity spec)
  names : ∀ f ∈ Stage.accumulators spec, p f.1
  operands : ∀ f ∈ Stage.accumulators spec, AccumulatorText p f.2

end GroupClause

def Stage.RawText : Stage → Prop
  | .filter tree => Filter.Names p tree.toValue
  | .group spec => GroupClause.RawText p spec
  | .project columns => columns.RawText p
  | .sort order => order.RawText p
  | .limit _ => True
  | .skip _ => True
  | .lookup l => l.RawText p
  | .unwind path => p path
  | .having tree => Filter.Names p tree.toValue

structure Select.RawText (s : Select) : Prop where
  table : p s.table
  filter : Filter.Names p s.filter.toTree
  projection : ∀ columns, s.projection = some columns → columns.RawText p
  joins : ∀ j ∈ s.joins, j.RawText p
  order : ∀ order, s.order = some order → order.RawText p

def UpdateOperator.OperandText : Value → Prop
  | .map es => ∀ e ∈ es, p e.1.text
  | .list items => ∀ v ∈ items, p v.text
  | .tuple items => ∀ v ∈ items, p v.text
  | _ => True

def Payload.RawText : Payload → Prop
  | .operations es => ∀ e ∈ es, UpdateOperator.OperandText p e.2
  | .rows given => ∀ row ∈ given, ∀ e ∈ row, p e.1.text

structure Update.RawText (u : Update) : Prop where
  table : p u.table
  filter : Filter.Names p u.filter.toTree
  idField : p u.idField.text
  payload : ∀ payload, u.payload = some payload → payload.RawText p

structure Delete.RawText (d : Delete) : Prop where
  table : p d.table
  filter : Filter.Names p d.filter.toTree

structure Insert.RawText (i : Insert) : Prop where
  table : p i.table
  documents : ∀ document ∈ i.documents, ∀ e ∈ document, p e.1.text
  upsertFields : ∀ fields, i.upsertFields = some fields → ∀ v ∈ fields, p v.text

structure Aggregate.RawText (a : Aggregate) : Prop where
  table : p a.table
  stages : ∀ stage ∈ a.stages, stage.RawText p

def Builder.RawText : Builder → Prop
  | .select s => s.RawText p
  | .update u => u.RawText p
  | .delete d => d.RawText p
  | .insert i => i.RawText p
  | .aggregate a => a.RawText p

/-- A join as it was given, before its type is made normal. -/
def Join.asGiven : Value → Reading Join
  | .map es => ofEntries id es
  | .record .join fields => ofEntries id (Fields.toEntries fields)
  | _ => Reading.fail [] .notModel

def Select.Call.RawText : Select.Call → Prop
  | .query tree => Filter.Names p tree
  | .project fields => ∀ columns, readProjection fields = .ok columns → columns.RawText p
  | .join joins => ∀ items, joinItems joins = .ok items → ∀ v ∈ items, ∀ j, Join.asGiven v = .ok j →
      j.RawText p
  | .sort v => ∀ order, readOrder v = .ok order → order.RawText p
  | .limit _ => True
  | .offset _ => True

def Update.Call.RawText : Update.Call → Prop
  | .query tree => Filter.Names p tree
  | .update v => ∀ idField payload, readPayload idField v = .ok payload → payload.RawText p
  | .single => True

def Delete.Call.RawText : Delete.Call → Prop
  | .query tree => Filter.Names p tree
  | .single => True

def Insert.Call.RawText : Insert.Call → Prop
  | .insertOne v => ∀ document, readDocument v = .ok document → ∀ e ∈ document, p e.1.text
  | .insertMany v => ∀ items documents, v.sequence? = some items →
      readDocuments 0 items = .ok documents → ∀ document ∈ documents, ∀ e ∈ document, p e.1.text
  | .upsert _ fields => ∀ items, fields.items = .ok items → ∀ v ∈ items, p v.text

def Aggregate.Call.stage : Aggregate.Call → Except Error Stage
  | .add v => Stage.parse v
  | .named kind content => Stage.parse (namedStage kind content)
  | .project fields => do Stage.parse (namedStage .project (← columns fields))
  | .lookup spec more => do Stage.parse (namedStage .lookup (← lookupContent spec more))

def Aggregate.Call.RawText (call : Aggregate.Call) : Prop :=
  ∀ stage, call.stage = .ok stage → stage.RawText p

def Builder.Call.RawText : Builder.Call → Prop
  | .select call => call.RawText p
  | .update call => call.RawText p
  | .delete call => call.RawText p
  | .insert call => call.RawText p
  | .aggregate call => call.RawText p

structure Builder.StartText (table idField pipeline : Value) : Prop where
  table : p table.text
  idField : p idField.text
  stages : ∀ stages, Stage.parseItems pipeline = .ok stages → ∀ stage ∈ stages, stage.RawText p

end BoundQuery
