import BoundQuery.Proofs.Discipline.Clause
import BoundQuery.Proofs.Discipline.Filter
import BoundQuery.Proofs.Statement.Spelled

/-! Statements keep to a discipline: where the text that was given may be taken as it is, and what
handlers and sub-queries write keeps to the discipline, so do the fragments of the statement. -/
namespace BoundQuery

open Fragments

variable {D : Discipline} {V : Vocabulary} {fs : Fragments}

theorem singleLimit_given (single : Bool) : D.given (singleLimit single) := by
  cases single <;> exact D.given_fixed (by decide)

theorem Delete.Spells.keeps (hV : V.Keeps D) {d : Delete} (hd : d.RawText D.given)
    (h : d.Spells V fs) : fs.Keeps D := by
  obtain ⟨condition, hcondition, rfl⟩ := h
  have hbefore : D.given ("DELETE FROM " ++ d.table ++ " WHERE ") :=
    D.given_append (D.given_append (D.given_fixed (by decide)) hd.table) (D.given_fixed (by decide))
  exact (hcondition.keeps hV hd.filter).around (a := 0) (.given hbefore)
    (.given (singleLimit_given d.single))

theorem Select.SpellsCondition.keeps (hV : V.Keeps D) {q : Select} (hq : q.RawText D.given)
    {rows : List Fragments} (h : q.SpellsCondition V rows) : ∀ fs ∈ rows, fs.Keeps D := by
  cases h with
  | none => simp
  | given _ filter =>
    have hkeyword : Keeps D [.text "WHERE "] := .text (D.given_fixed (by decide))
    exact List.forall_mem_singleton.mpr (hkeyword.append (filter.keeps hV hq.filter))

theorem head_leads {columns table : String} (hc : D.Leads 0 0 columns) (ht : D.given table) :
    ∀ t ∈ ["SELECT " ++ columns, "FROM " ++ table], D.Leads 0 0 t := by
  have hselect : D.given "SELECT " := D.given_fixed (by decide)
  have hfrom : D.given "FROM " := D.given_fixed (by decide)
  simp only [List.forall_mem_cons, List.not_mem_nil, false_implies, implies_true, and_true]
  exact ⟨(Discipline.Leads.given hselect).append hc, .given (D.given_append hfrom ht)⟩

theorem Select.Spells.keeps (hV : V.Keeps D) {q : Select} (hq : q.RawText D.given)
    (h : q.Spells V fs) : fs.Keeps D := by
  obtain ⟨columns, condition, hcondition, ⟨j, k, hcolumns⟩, rfl⟩ := h
  have hhead := head_leads (.given (Projection.clause_given hcolumns hq.table hq.projection)) hq.table
  have hjoins : ∀ t ∈ q.joins.map Join.clause, D.Leads 0 0 t := by
    intro t ht
    obtain ⟨join, hjoin, rfl⟩ := List.mem_map.mp ht
    exact .given (Join.clause_given (hq.joins join hjoin))
  have horder : D.given ((q.order.map Order.clause).getD "") := by
    cases ho : q.order with
    | none => exact D.given_empty
    | some order => exact Order.clause_given (hq.order order ho)
  have hbefore := List.forall_mem_append.mpr ⟨hhead, hjoins⟩
  have hafter := List.forall_mem_append.mpr
    ⟨Plan.clause_leads "ORDER BY" (D.given_fixed (by decide)) (.given horder),
      fun t ht => .given (Plan.paging_given q.limit q.offset t ht)⟩
  refine Keeps.joined ?_ (D.given_fixed (by decide))
  rw [List.forall_mem_append, List.forall_mem_append]
  exact ⟨⟨.texts hbefore, hcondition.keeps hV hq⟩, .texts hafter⟩

theorem UpdateOperator.spelled_keeps (operator : UpdateOperator) {field : String}
    (hf : D.given field) (v : Value) : (operator.spelled field v).Keeps D := by
  have hassigned : ∀ {s : String}, D.given s → Keeps D [.text s, .value v] :=
    fun hs => (Keeps.text hs).append (.value v)
  have hput : D.given (field ++ " = ") := D.given_append hf (D.given_fixed (by decide))
  cases operator with
  | put => exact hassigned hput
  | increase => exact hassigned (D.given_append (D.given_append hput hf) (D.given_fixed (by decide)))
  | multiply => exact hassigned (D.given_append (D.given_append hput hf) (D.given_fixed (by decide)))
  | unset => exact .text (D.given_append hf (D.given_fixed (by decide)))

namespace Update

theorem unsetFields_given {operand : Value} {fields : List Value}
    (h : unsetFields operand = .ok fields) (ho : UpdateOperator.OperandText D.given operand) :
    ∀ f ∈ fields, D.given f.text := by
  cases operand with
  | map es =>
    obtain rfl := Except.ok.inj h
    intro f hf
    obtain ⟨e, he, rfl⟩ := List.mem_map.mp hf
    exact ho e he
  | list items =>
    obtain rfl := Except.ok.inj h
    exact ho
  | tuple items =>
    obtain rfl := Except.ok.inj h
    exact ho
  | _ => cases h

theorem SpellsOperation.keeps {name : String} {operand : Value} {rows : List Fragments}
    (ho : UpdateOperator.OperandText D.given operand) (h : SpellsOperation name operand rows) :
    ∀ fs ∈ rows, fs.Keeps D := by
  cases h with
  | unset _ named =>
    refine Keeps.texts fun t ht => ?_
    obtain ⟨f, hf, rfl⟩ := List.mem_map.mp ht
    exact .given (D.given_append (unsetFields_given named ho f hf) (D.given_fixed (by decide)))
  | @assigned operator _ _ _ _ fields =>
    induction fields with
    | nil => simp
    | @cons e fs es rows first _ ih =>
      obtain ⟨v, -, rfl⟩ := first
      have hfirst := operator.spelled_keeps (ho e List.mem_cons_self) v
      exact List.forall_mem_cons.mpr ⟨hfirst, ih fun e he => ho e (List.mem_cons_of_mem _ he)⟩

theorem SpellsOperations.keeps {es : Entries} {rows : List Fragments}
    (ho : ∀ e ∈ es, UpdateOperator.OperandText D.given e.2) (h : SpellsOperations es rows) :
    ∀ fs ∈ rows, fs.Keeps D := by
  induction h with
  | nil => simp
  | cons head _ ih =>
    have hfirst := head.keeps (ho _ List.mem_cons_self)
    exact List.forall_mem_append.mpr ⟨hfirst, ih fun e he => ho e (List.mem_cons_of_mem _ he)⟩

theorem SpellsCases.keeps {idField column : Value} {rows : List Entries} {cases : List Fragments}
    (h : SpellsCases idField column rows cases) : ∀ fs ∈ cases, fs.Keeps D := by
  induction h with
  | nil => simp
  | absent _ _ ih => exact ih
  | @present row _ _ w _ _ _ _ ih =>
    have hwhen : Keeps D [.text "WHEN "] := .text (D.given_fixed (by decide))
    have hthen : Keeps D [.text " THEN "] := .text (D.given_fixed (by decide))
    exact List.forall_mem_cons.mpr
      ⟨(hwhen.append (.value (identityOf idField row))).append (hthen.append (.value w)), ih⟩

theorem SpellsColumn.keeps {idField column : Value} (hid : D.given idField.text)
    (hcolumn : D.given column.text) {rows : List Entries}
    (h : SpellsColumn idField rows column fs) : fs.Keeps D := by
  obtain ⟨cases, hcases, rfl⟩ := h
  have hspace : D.given " " := D.given_fixed (by decide)
  have hcase : D.given (column.text ++ " = CASE ") := D.given_append hcolumn (D.given_fixed (by decide))
  have helse : D.given (" ELSE " ++ column.text ++ " END") :=
    D.given_append (D.given_append (D.given_fixed (by decide)) hcolumn) (D.given_fixed (by decide))
  exact (Keeps.joined hcases.keeps hspace).around (a := 0)
    (.given (D.given_append (D.given_append hcase hid) hspace)) (.given helse)

theorem distinct_subset (vs : List Value) : Value.distinct vs ⊆ vs := by
  induction vs with
  | nil => exact List.Subset.refl _
  | cons v vs ih =>
    refine List.cons_subset_cons v fun w hw => ih ?_
    exact (List.mem_filter.mp hw).1

theorem rowColumns_given (idField : Value) {rows : List Entries}
    (h : ∀ row ∈ rows, ∀ e ∈ row, D.given e.1.text) :
    ∀ c ∈ rowColumns idField rows, D.given c.text := by
  intro c hc
  obtain ⟨hkeys, -⟩ := List.mem_filter.mp (distinct_subset _ hc)
  obtain ⟨row, hrow, hkey⟩ := List.mem_flatMap.mp hkeys
  obtain ⟨e, he, rfl⟩ := List.mem_map.mp hkey
  exact h row hrow e he

theorem columns_keep {idField : Value} (hid : D.given idField.text) {rows : List Entries}
    {columns : List Value} (hcolumns : ∀ c ∈ columns, D.given c.text) {cases : List Fragments}
    (h : List.Forall₂ (SpellsColumn idField rows) columns cases) : ∀ fs ∈ cases, fs.Keeps D := by
  induction h with
  | nil => simp
  | @cons column fs columns cases first _ ih =>
    have hfirst := first.keeps hid (hcolumns column List.mem_cons_self)
    exact List.forall_mem_cons.mpr ⟨hfirst, ih fun c hc => hcolumns c (List.mem_cons_of_mem _ hc)⟩

theorem SpellsExtra.keeps (hV : V.Keeps D) {tree : Value} (hn : Filter.Names D.given tree)
    (h : SpellsExtra V tree fs) : fs.Keeps D := by
  cases h with
  | vacuous => exact .empty
  | restricting filter =>
    exact (filter.keeps hV hn).around (a := 1) (.fixed (by decide) (by decide))
      (.fixed (by decide) (by decide))

theorem heading_keeps {u : Update} (ht : D.given u.table) {rows : List Fragments}
    (h : ∀ fs ∈ rows, fs.Keeps D) : (u.heading rows).Keeps D := by
  have hbefore : D.given ("UPDATE " ++ u.table ++ " SET ") :=
    D.given_append (D.given_append (D.given_fixed (by decide)) ht) (D.given_fixed (by decide))
  exact (Keeps.joined h (D.given_fixed (by decide))).around (a := 0) (.given hbefore)
    (.given (D.given_fixed (by decide)))

theorem Spells.keeps (hV : V.Keeps D) {u : Update} (hu : u.RawText D.given) (h : u.Spells V fs) :
    fs.Keeps D := by
  have hlimit : Keeps D [.text (singleLimit u.single)] := .text (singleLimit_given u.single)
  cases h with
  | operations payload assigned filter =>
    have hheading := heading_keeps hu.table (assigned.keeps (hu.payload _ payload))
    exact (hheading.append (filter.keeps hV hu.filter)).append hlimit
  | @rows rows _ _ payload assigned filter =>
    have hcolumns := rowColumns_given u.idField (hu.payload _ payload)
    have hheading := heading_keeps hu.table (columns_keep hu.idField hcolumns assigned)
    have hopening : D.Leads 0 1 " IN (" := .fixed (by decide) (by decide)
    have hids : (around (u.idField.text ++ " IN (")
        (joined ", " (values (rows.map (identityOf u.idField)))) ")").Keeps D :=
      (Keeps.joined (.values _) (D.given_fixed (by decide))).around
        ((Discipline.Leads.given hu.idField).append hopening) (.fixed (by decide) (by decide))
    exact ((hheading.append hids).append (filter.keeps hV hu.filter)).append hlimit

end Update

namespace Insert

theorem upsertClause_leads {i : Insert} {columns : List Value} {text : String}
    (h : i.upsertClause columns = .ok text) (hcolumns : ∀ c ∈ columns, D.given c.text)
    (hfields : ∀ fields, i.upsertFields = some fields → ∀ v ∈ fields, D.given v.text) :
    D.Leads 0 0 text := by
  have hrefreshed : ∀ v ∈ i.upsertFields.getD columns, D.given v.text := by
    cases hf : i.upsertFields with
    | none => exact hcolumns
    | some fields => exact hfields fields hf
  unfold upsertClause at h
  split at h
  · dsimp only at h
    split at h
    · cases h
    · obtain ⟨unknown, -, h⟩ := except_bind_eq_ok_iff.mp h
      split at h
      · obtain rfl := Except.ok.inj h
        have hspace : D.given " " := D.given_fixed (by decide)
        exact (Discipline.Leads.given hspace).append (Dialect.upsert_leads hrefreshed)
      · cases h
  · obtain rfl := Except.ok.inj h
    exact .given D.given_empty

theorem rows_keep {columns : List Value} {documents : List Entries} {rows : List Fragments}
    (h : List.Forall₂ (SpellsRow columns) documents rows) : ∀ fs ∈ rows, fs.Keeps D := by
  induction h with
  | nil => simp
  | cons first _ ih =>
    obtain ⟨vs, -, rfl⟩ := first
    have hrow : (joined ", " (values vs)).Keeps D := .joined (.values vs) (D.given_fixed (by decide))
    exact List.forall_mem_cons.mpr ⟨Filter.enclosed_keeps hrow, ih⟩

theorem Spells.keeps {i : Insert} (hi : i.RawText D.given) (h : i.Spells fs) : fs.Keeps D := by
  obtain ⟨first, rest, names, rows, upsert, hdocuments, hnames, hrows, hupsert, rfl⟩ := h
  have hcomma : D.given ", " := D.given_fixed (by decide)
  have hcolumns : ∀ c ∈ Entries.keys first, D.given c.text := by
    intro c hc
    obtain ⟨e, he, rfl⟩ := List.mem_map.mp hc
    exact hi.documents first (hdocuments ▸ List.mem_cons_self) e he
  have htable : D.given ("INSERT INTO " ++ i.table) :=
    D.given_append (D.given_fixed (by decide)) hi.table
  have hopening : D.Leads 0 1 " (" := .fixed (by decide) (by decide)
  have hclosing : D.Leads 1 0 ") VALUES " := .fixed (by decide) (by decide)
  have hbefore := (((Discipline.Leads.given htable).append hopening).append
    (.given (Discipline.given_join hnames hcomma hcolumns))).append hclosing
  exact (Keeps.joined (rows_keep hrows) hcomma).around hbefore
    (upsertClause_leads hupsert hcolumns hi.upsertFields)

end Insert

structure Plan.Keeps (D : Discipline) (plan : Plan) : Prop where
  select : D.Leads 0 0 plan.select
  groupBy : D.given plan.groupBy
  order : D.given plan.order
  joins : ∀ s ∈ plan.joins, D.given s
  comments : ∀ s ∈ plan.comments, D.Leads 0 0 s

namespace Plan

variable {scope : Scope} {table : String} {plan next : Plan} {j j' : Journal}

theorem initial_keeps : Keeps D {} where
  select := .given (D.given_fixed (by decide))
  groupBy := D.given_empty
  order := D.given_empty
  joins := by simp
  comments := by simp

theorem project_given {columns : Projection} (h : columns.RawText D.given) :
    ∀ v ∈ columns.plainColumns, D.given v.text := by
  intro v hv
  obtain ⟨c, hc, rfl⟩ := List.mem_map.mp hv
  have hcolumn := Projection.toColumns_given h c hc
  exact Column.plain_given hcolumn.1 hcolumn.2

theorem step_keeps (ht : D.given table) (hp : plan.Keeps D) {stage : Stage}
    (hstage : stage.RawText D.given) (h : step scope table plan stage j = .ok next j') :
    next.Keeps D := by
  cases stage with
  | filter tree =>
    obtain ⟨⟨clause, params⟩, k, -, h⟩ := bind_eq_ok_iff.mp h
    obtain ⟨rfl, -⟩ := pure_eq_ok_iff.mp h
    exact { hp with }
  | group spec =>
    obtain ⟨clause, k, hclause, h⟩ := bind_eq_ok_iff.mp h
    obtain ⟨rfl, -⟩ := pure_eq_ok_iff.mp h
    have htexts := GroupClause.ofSpec_leads hclause hstage
    exact { hp with select := htexts.1, groupBy := htexts.2 }
  | project columns =>
    have hcomma : D.given ", " := D.given_fixed (by decide)
    simp only [step] at h
    split at h
    · obtain ⟨rfl, -⟩ := pure_eq_ok_iff.mp h
      exact hp
    · obtain ⟨text, k, hlift, h⟩ := bind_eq_ok_iff.mp h
      obtain ⟨htext, -⟩ := liftExcept_eq_ok_iff.mp hlift
      obtain ⟨rfl, -⟩ := pure_eq_ok_iff.mp h
      have hcolumns := Discipline.given_join htext hcomma (project_given hstage)
      refine { hp with select := ?_ }
      dsimp only
      split
      · exact (Discipline.Leads.given (D.given_append hcolumns hcomma)).append hp.select
      · exact .given hcolumns
  | sort order =>
    obtain ⟨rfl, -⟩ := pure_eq_ok_iff.mp h
    exact { hp with order := Order.clause_given hstage }
  | limit n =>
    obtain ⟨rfl, -⟩ := pure_eq_ok_iff.mp h
    exact { hp with }
  | skip n =>
    obtain ⟨rfl, -⟩ := pure_eq_ok_iff.mp h
    exact { hp with }
  | lookup l =>
    obtain ⟨rfl, -⟩ := pure_eq_ok_iff.mp h
    refine { hp with joins := fun s hs => ?_ }
    rcases List.mem_append.mp hs with hs | hs
    · exact hp.joins s hs
    · obtain rfl := List.mem_singleton.mp hs
      exact Lookup.clause_given hstage ht
  | unwind path =>
    obtain ⟨rfl, -⟩ := pure_eq_ok_iff.mp h
    refine { hp with comments := fun s hs => ?_ }
    rcases List.mem_append.mp hs with hs | hs
    · exact hp.comments s hs
    · obtain rfl := List.mem_singleton.mp hs
      exact unwindComment_leads hstage
  | having tree =>
    obtain ⟨⟨clause, params⟩, k, -, h⟩ := bind_eq_ok_iff.mp h
    obtain ⟨rfl, -⟩ := pure_eq_ok_iff.mp h
    exact { hp with }

theorem run_keeps (ht : D.given table) {stages : List Stage} (hp : plan.Keeps D)
    (hstages : ∀ stage ∈ stages, stage.RawText D.given)
    (h : run scope table plan stages j = .ok next j') : next.Keeps D := by
  induction stages generalizing plan j with
  | nil =>
    obtain ⟨rfl, -⟩ := pure_eq_ok_iff.mp h
    exact hp
  | cons stage stages ih =>
    obtain ⟨middle, k, hstep, h⟩ := bind_eq_ok_iff.mp h
    have hmiddle := step_keeps ht hp (hstages stage List.mem_cons_self) hstep
    exact ih hmiddle (fun s hs => hstages s (List.mem_cons_of_mem _ hs)) h

theorem restrictingRows_keep {condition : Fragments} (h : condition.Keeps D) :
    ∀ fs ∈ restrictingRows condition, fs.Keeps D := by
  unfold restrictingRows
  split
  · simp
  · exact List.forall_mem_singleton.mpr h

variable {conditions having : List Fragments}

theorem SpellsStage.keeps (hV : V.Keeps D) {stage : Stage} (hstage : stage.RawText D.given)
    (h : SpellsStage V stage conditions having) :
    (∀ fs ∈ conditions, fs.Keeps D) ∧ ∀ fs ∈ having, fs.Keeps D := by
  cases h with
  | filter spelled => exact ⟨restrictingRows_keep (spelled.keeps hV hstage), by simp⟩
  | having spelled => exact ⟨by simp, restrictingRows_keep (spelled.keeps hV hstage)⟩
  | other => simp

theorem SpellsStages.keeps (hV : V.Keeps D) {stages : List Stage}
    (hstages : ∀ stage ∈ stages, stage.RawText D.given)
    (h : SpellsStages V stages conditions having) :
    (∀ fs ∈ conditions, fs.Keeps D) ∧ ∀ fs ∈ having, fs.Keeps D := by
  induction h with
  | nil => simp
  | cons first _ ih =>
    have hfirst := first.keeps hV (hstages _ List.mem_cons_self)
    have hrest := ih fun stage hstage => hstages stage (List.mem_cons_of_mem _ hstage)
    rw [List.forall_mem_append, List.forall_mem_append]
    exact ⟨⟨hfirst.1, hrest.1⟩, hfirst.2, hrest.2⟩

theorem conjunctionRows_keep (keyword : String) (hk : D.given keyword)
    (h : ∀ fs ∈ conditions, fs.Keeps D) :
    ∀ fs ∈ conjunctionRows keyword conditions, fs.Keeps D := by
  cases conditions with
  | nil => simp [conjunctionRows]
  | cons condition conditions =>
    have hkeyword : Fragments.Keeps D [.text (keyword ++ " ")] :=
      .text (D.given_append hk (D.given_fixed (by decide)))
    exact List.forall_mem_singleton.mpr
      (hkeyword.append (.joined h (D.given_fixed (by decide))))

end Plan

theorem Aggregate.Spells.keeps (hV : V.Keeps D) {a : Aggregate} (ha : a.RawText D.given)
    (h : a.Spells V fs) : fs.Keeps D := by
  obtain ⟨plan, conditions, having, ⟨scope, j, k, hrun⟩, hstages, rfl⟩ := h
  have hplan := Plan.run_keeps ha.table Plan.initial_keeps ha.stages hrun
  have hconditions := hstages.keeps hV ha.stages
  have hhead := head_leads hplan.select ha.table
  have hbefore := List.forall_mem_append.mpr ⟨List.forall_mem_append.mpr
    ⟨hhead, fun s hs => .given (hplan.joins s hs)⟩, hplan.comments⟩
  have hgroupBy := Plan.clause_leads "GROUP BY" (D.given_fixed (by decide)) (.given hplan.groupBy)
  have hafter := List.forall_mem_append.mpr
    ⟨Plan.clause_leads "ORDER BY" (D.given_fixed (by decide)) (.given hplan.order),
      fun t ht => .given (Plan.paging_given plan.limit plan.offset t ht)⟩
  have hwhere := Plan.conjunctionRows_keep "WHERE" (D.given_fixed (by decide)) hconditions.1
  have hhaving := Plan.conjunctionRows_keep "HAVING" (D.given_fixed (by decide)) hconditions.2
  refine Keeps.joined ?_ (D.given_fixed (by decide))
  simp only [List.forall_mem_append]
  exact ⟨⟨⟨⟨.texts hbefore, hwhere⟩, .texts hgroupBy⟩, hhaving⟩, .texts hafter⟩

/-- Where the text that was given may be taken as it is, the statement keeps to the discipline. -/
theorem Builder.Spells.keeps (hV : V.Keeps D) {b : Builder} (hb : b.RawText D.given)
    (h : b.Spells V fs) : fs.Keeps D := by
  cases b with
  | select q => exact Select.Spells.keeps hV hb h
  | update u => exact Update.Spells.keeps hV hb h
  | delete d => exact Delete.Spells.keeps hV hb h
  | insert i => exact Insert.Spells.keeps hb h
  | aggregate a => exact Aggregate.Spells.keeps hV hb h

end BoundQuery
