import BoundQuery.Proofs.Alike.Filter
import BoundQuery.Proofs.Compiled

/-! Statements that differ only in the values they bind have the same text, with as many values. -/
namespace BoundQuery

structure Statement.Alike (s s' : Statement) : Prop where
  sql : s.sql = s'.sql
  params : s.params.length = s'.params.length

namespace Accumulated

open BoundQuery.Filter

/-- As many filters, each of which differs from its counterpart only in the values it binds. -/
inductive Alike : Accumulated → Accumulated → Prop
  | empty : Alike .empty .empty
  | single {tree tree' : Entries} (first : AlikeEntries tree tree') :
      Alike (.single tree) (.single tree')
  | several {trees trees' : List Entries} (all : List.Forall₂ AlikeEntries trees trees') :
      Alike (.several trees) (.several trees')

variable {a a' : Accumulated}

theorem Alike.isEmpty_eq (h : Alike a a') : a.isEmpty = a'.isEmpty := by
  cases h <;> rfl

theorem alikeChildren_map {trees trees' : List Entries}
    (h : List.Forall₂ AlikeEntries trees trees') :
    AlikeChildren (trees.map .map) (trees'.map .map) := by
  induction h with
  | nil => exact .nil
  | cons hfirst _ ih => exact .cons (.map hfirst) ih

theorem Alike.toTree (h : Alike a a') : Filter.Alike a.toTree a'.toTree := by
  cases h with
  | empty => exact .map .nil
  | single first => exact .map first
  | several all =>
    have hmark : (Value.str "$and").operator? = some "$and" := by decide
    exact .map (.cons (.group hmark rfl rfl (alikeChildren_map all)) .nil)

end Accumulated

section

variable {scope : Scope} {j j' k k' : Journal} {s s' : Statement}

structure Delete.Alike (d d' : Delete) : Prop where
  table : d.table = d'.table
  filter : d.filter.Alike d'.filter
  single : d.single = d'.single

theorem Delete.Alike.compile_alike (hs : scope.Steady) {d d' : Delete} (halike : d.Alike d')
    (hu : Filter.Unplugged scope d.filter.toTree) (hu' : Filter.Unplugged scope d'.filter.toTree)
    (h : d.compile scope j = .ok s k) (h' : d'.compile scope j' = .ok s' k') : s.Alike s' := by
  obtain ⟨-, clause, params, l, hcollect, rfl, -⟩ := Delete.compile_eq_ok_iff.mp h
  obtain ⟨-, clause', params', l', hcollect', rfl, -⟩ := Delete.compile_eq_ok_iff.mp h'
  obtain ⟨rfl, hlength⟩ :=
    halike.filter.toTree.collect_alike hs hu hu' hcollect hcollect' rfl
  exact ⟨by rw [halike.table, halike.single], hlength⟩

structure Select.Alike (q q' : Select) : Prop where
  table : q.table = q'.table
  filter : q.filter.Alike q'.filter
  projection : q.projection = q'.projection
  joins : q.joins = q'.joins
  order : q.order = q'.order
  limit : q.limit = q'.limit
  offset : q.offset = q'.offset

theorem Select.Alike.condition_alike (hs : scope.Steady) {q q' : Select} (halike : q.Alike q')
    (hu : Filter.Unplugged scope q.filter.toTree) (hu' : Filter.Unplugged scope q'.filter.toTree)
    {texts texts' : List String} {params params' : List Value}
    (h : q.condition scope j = .ok (texts, params) k)
    (h' : q'.condition scope j' = .ok (texts', params') k') :
    texts = texts' ∧ params.length = params'.length := by
  have hempty := halike.filter.isEmpty_eq
  rcases Select.condition_eq_ok h with ⟨he, rfl, rfl⟩ | ⟨hne, clause, rfl, hcollect⟩
  · rcases Select.condition_eq_ok h' with ⟨-, rfl, rfl⟩ | ⟨hne', -⟩
    · exact ⟨rfl, rfl⟩
    · cases he.symm.trans (hempty.trans hne')
  · rcases Select.condition_eq_ok h' with ⟨he', -⟩ | ⟨-, clause', rfl, hcollect'⟩
    · cases hne.symm.trans (hempty.trans he')
    · obtain ⟨rfl, hlength⟩ :=
        halike.filter.toTree.collect_alike hs hu hu' hcollect hcollect' rfl
      exact ⟨rfl, hlength⟩

theorem Select.Alike.compile_alike (hs : scope.Steady) {q q' : Select} (halike : q.Alike q')
    (hu : Filter.Unplugged scope q.filter.toTree) (hu' : Filter.Unplugged scope q'.filter.toTree)
    (h : q.compile scope j = .ok s k) (h' : q'.compile scope j' = .ok s' k') : s.Alike s' := by
  obtain ⟨columns, condition, params, l, m, hcolumns, hcondition, rfl⟩ := Select.compile_eq_ok h
  obtain ⟨columns', condition', params', l', m', hcolumns', hcondition', rfl⟩ :=
    Select.compile_eq_ok h'
  rw [← halike.table, ← halike.joins, ← halike.projection] at hcolumns'
  obtain rfl := (Projection.clause_steady _ _ _).result_unique hcolumns hcolumns'
  obtain ⟨rfl, hlength⟩ := halike.condition_alike hs hu hu' hcondition hcondition'
  refine ⟨?_, hlength⟩
  rw [halike.table, halike.joins, halike.order, halike.limit, halike.offset]

end

theorem Entries.has_eq_any (es : Entries) (key : Value) :
    has es key = (keys es).any fun k => k.same key := by
  induction es with
  | nil => rfl
  | cons e rest ih =>
    simp only [has, get?, keys, List.map_cons, List.any_cons] at ih ⊢
    cases e.1.same key with
    | true => rfl
    | false => exact ih

structure Assignments.Alike (a a' : Assignments) : Prop where
  texts : a.texts = a'.texts
  params : a.params.length = a'.params.length

theorem Assignments.Alike.append {a a' b b' : Assignments} (h : a.Alike a') (h' : b.Alike b') :
    (a.append b).Alike (a'.append b') :=
  ⟨by simp [Assignments.append, h.texts, h'.texts], by simp [Assignments.append, h.params, h'.params]⟩

inductive Update.AlikeOperation : Value × Value → Value × Value → Prop
  | same (e : Value × Value) : AlikeOperation e e
  | assigned {key : Value} {es es' : Entries} (fields : Entries.keys es = Entries.keys es') :
      AlikeOperation (key, .map es) (key, .map es')

inductive Payload.Alike : Payload → Payload → Prop
  | operations {es es' : Entries} (all : List.Forall₂ Update.AlikeOperation es es') :
      Alike (.operations es) (.operations es')
  | rows {rows rows' : List Entries} (columns : rows.map Entries.keys = rows'.map Entries.keys) :
      Alike (.rows rows) (.rows rows')

structure Update.Alike (u u' : Update) : Prop where
  table : u.table = u'.table
  filter : u.filter.Alike u'.filter
  idField : u.idField = u'.idField
  payload : Option.Rel Payload.Alike u.payload u'.payload
  single : u.single = u'.single

namespace Update

variable {a a' : Assignments}

theorem fieldAssignments_eq_ok {operator : UpdateOperator} {es : Entries}
    (h : fieldAssignments operator es = .ok a) :
    a.texts = (Entries.keys es).map (fun f => operator.assignment f.text) ∧
      a.params.length = (Entries.keys es).length := by
  induction es generalizing a with
  | nil =>
    obtain rfl := Except.ok.inj h
    exact ⟨rfl, rfl⟩
  | cons e rest ih =>
    obtain ⟨v, -, h⟩ := except_bind_eq_ok_iff.mp h
    obtain ⟨b, hb, h⟩ := except_bind_eq_ok_iff.mp h
    obtain rfl := Except.ok.inj h
    obtain ⟨htexts, hparams⟩ := ih hb
    simp only [Assignments.append, Entries.keys, List.map_cons, List.length_cons] at htexts hparams ⊢
    exact ⟨by rw [htexts]; rfl, by rw [← hparams]; rfl⟩

theorem operationAssignments_alike {name : String} {es es' : Entries}
    (hkeys : Entries.keys es = Entries.keys es')
    (h : operationAssignments name (.map es) = .ok a)
    (h' : operationAssignments name (.map es') = .ok a') : a.Alike a' := by
  unfold operationAssignments at h h'
  split at h
  · cases h
  · rename_i hname
    simp only [hname] at h'
    obtain ⟨fields, hfields, h⟩ := except_bind_eq_ok_iff.mp h
    obtain ⟨fields', hfields', h'⟩ := except_bind_eq_ok_iff.mp h'
    obtain rfl := Except.ok.inj hfields
    obtain rfl := Except.ok.inj hfields'
    obtain rfl := Except.ok.inj h
    obtain rfl := Except.ok.inj h'
    exact ⟨by rw [hkeys], rfl⟩
  · rename_i operator hunset hname
    simp only [hname] at h'
    obtain ⟨htexts, hparams⟩ := fieldAssignments_eq_ok h
    obtain ⟨htexts', hparams'⟩ := fieldAssignments_eq_ok h'
    exact ⟨by rw [htexts, htexts', hkeys], by rw [hparams, hparams', hkeys]⟩

theorem assignments_alike {es es' : Entries} (hes : List.Forall₂ AlikeOperation es es')
    (h : assignments es = .ok a) (h' : assignments es' = .ok a') : a.Alike a' := by
  induction hes generalizing a a' with
  | nil =>
    obtain rfl := Except.ok.inj h
    obtain rfl := Except.ok.inj h'
    exact ⟨rfl, rfl⟩
  | cons hfirst _ ih =>
    obtain ⟨b, hb, h⟩ := except_bind_eq_ok_iff.mp h
    obtain ⟨c, hc, h⟩ := except_bind_eq_ok_iff.mp h
    obtain ⟨b', hb', h'⟩ := except_bind_eq_ok_iff.mp h'
    obtain ⟨c', hc', h'⟩ := except_bind_eq_ok_iff.mp h'
    obtain rfl := Except.ok.inj h
    obtain rfl := Except.ok.inj h'
    refine Assignments.Alike.append ?_ (ih hc hc')
    cases hfirst with
    | same =>
      obtain rfl := Except.ok.inj (hb.symm.trans hb')
      exact ⟨rfl, rfl⟩
    | assigned fields => exact operationAssignments_alike fields hb hb'

section Rows

variable {rows rows' : List Entries}

def filled (column : Value) (rows : List Entries) : Nat :=
  rows.countP fun row => Entries.has row column

theorem filled_eq (hkeys : rows.map Entries.keys = rows'.map Entries.keys) (column : Value) :
    filled column rows = filled column rows' := by
  have hcount : ∀ rows : List Entries, filled column rows =
      (rows.map Entries.keys).countP fun keys => keys.any fun k => k.same column := by
    intro rows
    simp only [filled, Entries.has_eq_any, List.countP_map, Function.comp_def]
  rw [hcount, hcount, hkeys]

theorem rowColumns_eq (hkeys : rows.map Entries.keys = rows'.map Entries.keys) (idField : Value) :
    rowColumns idField rows = rowColumns idField rows' := by
  rw [rowColumns, rowColumns, List.flatMap_def, List.flatMap_def, hkeys]

theorem caseText_eq (hkeys : rows.map Entries.keys = rows'.map Entries.keys)
    (idField column : Value) : caseText idField column rows = caseText idField column rows' := by
  have hcount := filled_eq hkeys column
  simp only [filled, List.countP_eq_length_filter] at hcount
  simp only [caseText, List.map_const', hcount]

theorem caseParams_length {idField column : Value} {params : List Value}
    (h : caseParams idField column rows = .ok params) : params.length = 2 * filled column rows := by
  induction rows generalizing params with
  | nil =>
    obtain rfl := Except.ok.inj h
    rfl
  | cons row rest ih =>
    unfold caseParams at h
    split at h
    · rename_i v hv
      obtain ⟨stored, -, h⟩ := except_bind_eq_ok_iff.mp h
      obtain ⟨more, hmore, h⟩ := except_bind_eq_ok_iff.mp h
      obtain rfl := Except.ok.inj h
      have hhas : Entries.has row column = true := by rw [Entries.has, hv]; rfl
      simp only [filled, List.countP_cons_of_pos, hhas, List.length_cons] at ih ⊢
      rw [ih hmore]
      omega
    · rename_i hnone
      have hhas : Entries.has row column = false := by rw [Entries.has, hnone]; rfl
      simp only [filled, List.countP_cons, hhas] at ih ⊢
      exact ih h

theorem cases_alike (hkeys : rows.map Entries.keys = rows'.map Entries.keys) {idField : Value}
    {columns : List Value} (h : cases idField rows columns = .ok a)
    (h' : cases idField rows' columns = .ok a') : a.Alike a' := by
  induction columns generalizing a a' with
  | nil =>
    obtain rfl := Except.ok.inj h
    obtain rfl := Except.ok.inj h'
    exact ⟨rfl, rfl⟩
  | cons column columns ih =>
    obtain ⟨params, hparams, h⟩ := except_bind_eq_ok_iff.mp h
    obtain ⟨b, hb, h⟩ := except_bind_eq_ok_iff.mp h
    obtain ⟨params', hparams', h'⟩ := except_bind_eq_ok_iff.mp h'
    obtain ⟨b', hb', h'⟩ := except_bind_eq_ok_iff.mp h'
    obtain rfl := Except.ok.inj h
    obtain rfl := Except.ok.inj h'
    refine Assignments.Alike.append ⟨?_, ?_⟩ (ih hb hb')
    · rw [caseText_eq hkeys]
    · rw [caseParams_length hparams, caseParams_length hparams', filled_eq hkeys]

end Rows

variable {scope : Scope} {j j' k k' : Journal} {s s' : Statement} {u u' : Update}

theorem Alike.head_eq (halike : u.Alike u') (texts : List String) : u.head texts = u'.head texts := by
  rw [head, head, halike.table]

theorem Alike.operatorUpdate_alike (hs : scope.Steady) (halike : u.Alike u')
    (hu : Filter.Unplugged scope u.filter.toTree) (hu' : Filter.Unplugged scope u'.filter.toTree)
    {es es' : Entries} (hes : List.Forall₂ AlikeOperation es es')
    (h : u.operatorUpdate scope es j = .ok s k) (h' : u'.operatorUpdate scope es' j' = .ok s' k') :
    s.Alike s' := by
  obtain ⟨a, clause, params, ha, -, hcollect, rfl⟩ := operatorUpdate_eq_ok_iff.mp h
  obtain ⟨a', clause', params', ha', -, hcollect', rfl⟩ := operatorUpdate_eq_ok_iff.mp h'
  have hassigned := assignments_alike hes ha ha'
  obtain ⟨rfl, hlength⟩ :=
    halike.filter.toTree.collect_alike hs hu hu' hcollect hcollect' hassigned.params
  exact ⟨by rw [hassigned.texts, halike.head_eq], hlength⟩

theorem Alike.bulkUpdate_alike (hs : scope.Steady) (halike : u.Alike u')
    (hu : Filter.Unplugged scope u.filter.toTree) (hu' : Filter.Unplugged scope u'.filter.toTree)
    {rows rows' : List Entries} (hkeys : rows.map Entries.keys = rows'.map Entries.keys)
    (h : u.bulkUpdate scope rows j = .ok s k) (h' : u'.bulkUpdate scope rows' j' = .ok s' k') :
    s.Alike s' := by
  obtain ⟨-, -, a, clause, params, ha, hcollect, rfl⟩ := bulkUpdate_eq_ok_iff.mp h
  obtain ⟨-, -, a', clause', params', ha', hcollect', rfl⟩ := bulkUpdate_eq_ok_iff.mp h'
  rw [← halike.idField, ← rowColumns_eq hkeys] at ha'
  have hcases := cases_alike hkeys ha ha'
  have hrows : rows.length = rows'.length := by simpa using congrArg List.length hkeys
  obtain ⟨rfl, hlength⟩ :=
    halike.filter.toTree.collect_alike hs hu hu' hcollect hcollect' rfl
  have hextra : (extraCondition clause params).1 = (extraCondition clause params').1 ∧
      (extraCondition clause params).2.length = (extraCondition clause params').2.length := by
    unfold extraCondition
    split
    · exact ⟨rfl, rfl⟩
    · exact ⟨rfl, hlength⟩
  constructor
  · dsimp only
    rw [hcases.texts, halike.head_eq, halike.idField, hrows, hextra.1]
  · simp only [List.length_append, List.length_map, hcases.params, hrows, hextra.2]

theorem Alike.compile_alike (hs : scope.Steady) (halike : u.Alike u')
    (hu : Filter.Unplugged scope u.filter.toTree) (hu' : Filter.Unplugged scope u'.filter.toTree)
    (h : u.compile scope j = .ok s k) (h' : u'.compile scope j' = .ok s' k') : s.Alike s' := by
  obtain ⟨-, payload, body, l, hpayload, hbody, rfl, -⟩ := compile_eq_ok_iff.mp h
  obtain ⟨-, payload', body', l', hpayload', hbody', rfl, -⟩ := compile_eq_ok_iff.mp h'
  have hpayloads := halike.payload
  rw [hpayload, hpayload'] at hpayloads
  have hbodies : body.Alike body' := by
    cases hpayloads with
    | some hpayloads =>
      cases hpayloads with
      | operations all => exact halike.operatorUpdate_alike hs hu hu' all hbody hbody'
      | rows columns => exact halike.bulkUpdate_alike hs hu hu' columns hbody hbody'
  exact ⟨by rw [hbodies.sql, halike.single], hbodies.params⟩

end Update

structure Insert.Alike (i i' : Insert) : Prop where
  table : i.table = i'.table
  documents : i.documents.map Entries.keys = i'.documents.map Entries.keys
  upsert : i.upsert = i'.upsert
  upsertFields : i.upsertFields = i'.upsertFields

namespace Insert

theorem rowParams_length {columns : List Value} {documents : List Entries} {params : List Value}
    (h : rowParams columns documents = .ok params) :
    params.length = documents.length * columns.length := by
  induction documents generalizing params with
  | nil =>
    obtain rfl := Except.ok.inj h
    simp
  | cons document rest ih =>
    obtain ⟨row, hrow, h⟩ := except_bind_eq_ok_iff.mp h
    obtain ⟨more, hmore, h⟩ := except_bind_eq_ok_iff.mp h
    obtain rfl := Except.ok.inj h
    rw [List.length_append, documentParams_length hrow, ih hmore, List.length_cons, Nat.succ_mul,
      Nat.add_comm]

theorem Alike.compile_alike {i i' : Insert} {s s' : Statement} {j j' k k' : Journal}
    (halike : i.Alike i') (h : i.compile j = .ok s k) (h' : i'.compile j' = .ok s' k') :
    s.Alike s' := by
  obtain ⟨first, rest, names, params, upsert, hdocuments, -, hnames, hparams, hupsert, rfl⟩ :=
    statement_eq_ok (compile_eq_ok h)
  obtain ⟨first', rest', names', params', upsert', hdocuments', -, hnames', hparams', hupsert',
    rfl⟩ := statement_eq_ok (compile_eq_ok h')
  have hkeys := halike.documents
  have hlength : i.documents.length = i'.documents.length := by
    simpa using congrArg List.length hkeys
  rw [hdocuments, hdocuments'] at hkeys
  have hcolumns : Entries.keys first = Entries.keys first' := (List.cons.inj hkeys).1
  rw [← hcolumns] at hnames' hparams' hupsert'
  obtain rfl := Except.ok.inj (hnames.symm.trans hnames')
  have hclause : i.upsertClause (Entries.keys first) = i'.upsertClause (Entries.keys first) := by
    simp only [upsertClause, halike.upsert, halike.upsertFields]
  obtain rfl := Except.ok.inj (hupsert.symm.trans (hclause.trans hupsert'))
  constructor
  · dsimp only
    rw [halike.table, hcolumns, List.map_const', List.map_const', hlength]
  · dsimp only
    rw [rowParams_length hparams, rowParams_length hparams', hlength]

end Insert

namespace Builder

inductive Alike : Builder → Builder → Prop
  | select {s s' : Select} (h : s.Alike s') : Alike (.select s) (.select s')
  | update {u u' : Update} (h : u.Alike u') : Alike (.update u) (.update u')
  | delete {d d' : Delete} (h : d.Alike d') : Alike (.delete d) (.delete d')
  | insert {i i' : Insert} (h : i.Alike i') : Alike (.insert i) (.insert i')

def Unplugged (scope : Scope) (b : Builder) : Prop :=
  ∀ tree, b.filter? = some tree → Filter.Unplugged scope tree

theorem Alike.compile_alike {scope : Scope} (hs : scope.Steady) {b b' : Builder} (h : Alike b b')
    (hb : b.Unplugged scope) (hb' : b'.Unplugged scope) {s s' : Statement} {j j' k k' : Journal}
    (hc : b.compile scope j = .ok s k) (hc' : b'.compile scope j' = .ok s' k') : s.Alike s' := by
  cases h with
  | select h => exact h.compile_alike hs (hb _ rfl) (hb' _ rfl) hc hc'
  | update h => exact h.compile_alike hs (hb _ rfl) (hb' _ rfl) hc hc'
  | delete h => exact h.compile_alike hs (hb _ rfl) (hb' _ rfl) hc hc'
  | insert h => exact h.compile_alike hc hc'

end Builder

end BoundQuery
