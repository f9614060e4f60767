import BoundQuery.Proofs.Compiled
import BoundQuery.Proofs.Spelled
import BoundQuery.Proofs.Statement.Spelling

/-! Compiling a builder writes its statement by the rules. -/
namespace BoundQuery

open Fragments

def Fragments.statement (fs : Fragments) : Statement := ⟨fs.sql, fs.params⟩

variable {scope : Scope} {V : Vocabulary} {s : Statement} {j j' : Journal}

theorem Filter.collect_spelled (hs : scope.Within V) {context clause : String} {tree : Value}
    {params ws : List Value}
    (h : Compile.collect params (compile scope context tree) j = .ok (clause, ws) j') :
    ∃ fs, Spells V tree fs ∧ clause = fs.sql ∧ ws = params ++ fs.params := by
  obtain ⟨vs, rfl, fs, hfs, rfl, rfl⟩ :=
    Compile.collect_eq_ok ((compile_spelled hs).1 context tree) h
  exact ⟨fs, hfs, rfl, rfl⟩

theorem Delete.compile_spelled (hs : scope.Within V) {d : Delete}
    (h : d.compile scope j = .ok s j') : ∃ fs, d.Spells V fs ∧ s = fs.statement := by
  obtain ⟨-, clause, params, k, hcollect, rfl, -⟩ := Delete.compile_eq_ok_iff.mp h
  obtain ⟨condition, hcondition, rfl, rfl⟩ := Filter.collect_spelled hs hcollect
  exact ⟨_, ⟨condition, hcondition, rfl⟩, by simp [Fragments.statement]⟩

theorem Select.condition_spelled (hs : scope.Within V) {q : Select} {texts : List String}
    {params : List Value} (h : q.condition scope j = .ok (texts, params) j') :
    ∃ rows, q.SpellsCondition V rows ∧ texts = rows.map sql ∧
      params = rows.flatMap Fragments.params := by
  rcases Select.condition_eq_ok h with ⟨he, rfl, rfl⟩ | ⟨hne, clause, rfl, hcollect⟩
  · exact ⟨[], .none he, rfl, rfl⟩
  · obtain ⟨condition, hcondition, rfl, rfl⟩ := Filter.collect_spelled hs hcollect
    exact ⟨_, .given hne hcondition, by simp [Fragment.sql], by simp [Fragment.params]⟩

theorem Select.compile_spelled (hs : scope.Within V) {q : Select}
    (h : q.compile scope j = .ok s j') : ∃ fs, q.Spells V fs ∧ s = fs.statement := by
  obtain ⟨columns, condition, params, k, l, hcolumns, hcondition, rfl⟩ := Select.compile_eq_ok h
  obtain ⟨rows, hrows, rfl, rfl⟩ := condition_spelled hs hcondition
  refine ⟨_, ⟨columns, rows, hrows, ⟨j, k, hcolumns⟩, rfl⟩, ?_⟩
  simp [Fragments.statement]

def Assignments.ofRows (rows : List Fragments) : Assignments :=
  ⟨rows.map Fragments.sql, rows.flatMap Fragments.params⟩

theorem Assignments.append_ofRows (rows rows' : List Fragments) :
    (ofRows rows).append (ofRows rows') = ofRows (rows ++ rows') := by
  simp [ofRows, append]

theorem UpdateOperator.spelled_eq {operator : UpdateOperator} (binds : operator ≠ .unset)
    (field : String) (v : Value) : (operator.spelled field v).statement =
      ⟨operator.assignment field, [v]⟩ := by
  cases operator with
  | unset => exact absurd rfl binds
  | _ => simp [spelled, assignment, Fragments.statement, Fragment.sql, Fragment.params,
      String.append_assoc]

namespace Update

theorem fieldAssignments_spelled {operator : UpdateOperator} (binds : operator ≠ .unset)
    {es : Entries} {a : Assignments} (h : fieldAssignments operator es = .ok a) :
    ∃ rows, List.Forall₂ (fun e fs => ∃ v, operator.bound e.2 = .ok v ∧
      fs = operator.spelled e.1.text v) es rows ∧ a = .ofRows rows := by
  induction es generalizing a with
  | nil =>
    obtain rfl := Except.ok.inj h
    exact ⟨[], .nil, rfl⟩
  | cons e es ih =>
    obtain ⟨v, hv, h⟩ := except_bind_eq_ok_iff.mp h
    obtain ⟨b, hb, h⟩ := except_bind_eq_ok_iff.mp h
    obtain ⟨rows, hrows, rfl⟩ := ih hb
    obtain rfl := Except.ok.inj h
    refine ⟨_, .cons ⟨v, hv, rfl⟩ hrows, ?_⟩
    have hfirst := UpdateOperator.spelled_eq binds e.1.text v
    simp only [Fragments.statement, Statement.mk.injEq] at hfirst
    simp [Assignments.append, Assignments.ofRows, hfirst]

theorem operationAssignments_spelled {name : String} {operand : Value} {a : Assignments}
    (h : operationAssignments name operand = .ok a) :
    ∃ rows, SpellsOperation name operand rows ∧ a = .ofRows rows := by
  unfold operationAssignments at h
  split at h
  · cases h
  · rename_i hknown
    obtain ⟨fields, hfields, h⟩ := except_bind_eq_ok_iff.mp h
    obtain rfl := Except.ok.inj h
    exact ⟨_, .unset hknown hfields, by simp [Assignments.ofRows, UpdateOperator.assignment]⟩
  · rename_i operator hunset hknown
    have hbinds : operator ≠ .unset := fun he => hunset (he ▸ rfl)
    cases operand with
    | map es =>
      obtain ⟨rows, hrows, rfl⟩ := fieldAssignments_spelled hbinds h
      exact ⟨rows, .assigned hknown hbinds hrows, rfl⟩
    | _ => cases h

theorem assignments_spelled {es : Entries} {a : Assignments} (h : assignments es = .ok a) :
    ∃ rows, SpellsOperations es rows ∧ a = .ofRows rows := by
  induction es generalizing a with
  | nil =>
    obtain rfl := Except.ok.inj h
    exact ⟨[], .nil, rfl⟩
  | cons e es ih =>
    obtain ⟨b, hb, h⟩ := except_bind_eq_ok_iff.mp h
    obtain ⟨c, hc, h⟩ := except_bind_eq_ok_iff.mp h
    obtain ⟨first, hfirst, rfl⟩ := operationAssignments_spelled hb
    obtain ⟨rest, hrest, rfl⟩ := ih hc
    obtain rfl := Except.ok.inj h
    exact ⟨_, .cons hfirst hrest, Assignments.append_ofRows first rest⟩

theorem caseParams_spelled {idField column : Value} {rows : List Entries} {params : List Value}
    (h : caseParams idField column rows = .ok params) :
    ∃ cases, SpellsCases idField column rows cases ∧ params = cases.flatMap Fragments.params ∧
      cases.map sql = (rows.filter fun row => Entries.has row column).map fun _ => "WHEN ? THEN ?" := by
  induction rows generalizing params with
  | nil =>
    obtain rfl := Except.ok.inj h
    exact ⟨[], .nil, rfl, rfl⟩
  | cons row rows ih =>
    cases hcolumn : Entries.get? column row with
    | none =>
      have hhas : Entries.has row column = false := by simp [Entries.has, hcolumn]
      simp only [caseParams, hcolumn] at h
      obtain ⟨cases, hcases, rfl, hsql⟩ := ih h
      refine ⟨cases, .absent hcolumn hcases, rfl, ?_⟩
      rw [List.filter_cons_of_neg (by simp [hhas]), hsql]
    | some v =>
      have hhas : Entries.has row column = true := by simp [Entries.has, hcolumn]
      simp only [caseParams, hcolumn] at h
      obtain ⟨w, hw, h⟩ := except_bind_eq_ok_iff.mp h
      obtain ⟨more, hmore, h⟩ := except_bind_eq_ok_iff.mp h
      obtain rfl := Except.ok.inj h
      obtain ⟨cases, hcases, rfl, hsql⟩ := ih hmore
      refine ⟨_, .present hcolumn (Value.stored_eq_ok_iff.mp hw) hcases, by simp [Fragment.params], ?_⟩
      rw [List.filter_cons_of_pos (by simp [hhas]), List.map_cons, List.map_cons, hsql]
      simp [Fragment.sql]

theorem cases_spelled {idField : Value} {rows : List Entries} {columns : List Value}
    {a : Assignments} (h : cases idField rows columns = .ok a) :
    ∃ fss, List.Forall₂ (SpellsColumn idField rows) columns fss ∧ a = .ofRows fss := by
  induction columns generalizing a with
  | nil =>
    obtain rfl := Except.ok.inj h
    exact ⟨[], .nil, rfl⟩
  | cons column columns ih =>
    obtain ⟨params, hparams, h⟩ := except_bind_eq_ok_iff.mp h
    obtain ⟨b, hb, h⟩ := except_bind_eq_ok_iff.mp h
    obtain ⟨cases, hcases, rfl, hsql⟩ := caseParams_spelled hparams
    obtain ⟨rest, hrest, rfl⟩ := ih hb
    obtain rfl := Except.ok.inj h
    refine ⟨_, .cons ⟨cases, hcases, rfl⟩ hrest, ?_⟩
    simp [Assignments.append, Assignments.ofRows, caseText, hsql, String.append_assoc]

theorem extraCondition_spelled {tree : Value} {condition : Fragments}
    (h : Filter.Spells V tree condition) : ∃ extra, SpellsExtra V tree extra ∧
      extraCondition condition.sql condition.params = (extra.sql, extra.params) := by
  unfold extraCondition
  split
  · rename_i halways
    exact ⟨[], .vacuous h halways, rfl⟩
  · rename_i hsometimes
    exact ⟨_, .restricting h hsometimes, by simp⟩

theorem heading_eq (u : Update) (rows : List Fragments) : (u.heading rows).statement =
    ⟨u.head (Assignments.ofRows rows).texts, (Assignments.ofRows rows).params⟩ := by
  simp [heading, head, Assignments.ofRows, Fragments.statement]

theorem compile_spelled (hs : scope.Within V) {u : Update} (h : u.compile scope j = .ok s j') :
    ∃ fs, u.Spells V fs ∧ s = fs.statement := by
  obtain ⟨-, payload, body, k, hpayload, hbody, rfl, -⟩ := compile_eq_ok_iff.mp h
  cases payload with
  | operations es =>
    obtain ⟨a, clause, params, ha, -, hcollect, rfl⟩ := operatorUpdate_eq_ok_iff.mp hbody
    obtain ⟨rows, hrows, rfl⟩ := assignments_spelled ha
    obtain ⟨condition, hcondition, rfl, rfl⟩ := Filter.collect_spelled hs hcollect
    refine ⟨_, .operations hpayload hrows hcondition, ?_⟩
    have hheading := u.heading_eq rows
    simp only [Fragments.statement, Statement.mk.injEq] at hheading
    simp [Fragments.statement, hheading, Fragment.sql, Fragment.params, String.append_assoc]
  | rows rows =>
    obtain ⟨-, -, a, clause, params, ha, hcollect, rfl⟩ := bulkUpdate_eq_ok_iff.mp hbody
    obtain ⟨columns, hcolumns, rfl⟩ := cases_spelled ha
    obtain ⟨condition, hcondition, rfl, rfl⟩ := Filter.collect_spelled hs hcollect
    obtain ⟨extra, hextra, heq⟩ := extraCondition_spelled hcondition
    refine ⟨_, .rows hpayload hcolumns hextra, ?_⟩
    have hheading := u.heading_eq columns
    simp only [Fragments.statement, Statement.mk.injEq] at hheading
    simp [Fragments.statement, hheading, heq, Fragment.sql, Fragment.params, String.append_assoc,
      Dialect.placeholders]

end Update

namespace Insert

theorem documentParams_spelled {document : Entries} {columns params : List Value}
    (h : documentParams document columns = .ok params) : List.Forall₂
      (fun column v => ((Entries.get? column document).getD .null).StoredAs v) columns params := by
  induction columns generalizing params with
  | nil =>
    obtain rfl := Except.ok.inj h
    exact .nil
  | cons column columns ih =>
    obtain ⟨v, hv, h⟩ := except_bind_eq_ok_iff.mp h
    obtain ⟨rest, hrest, h⟩ := except_bind_eq_ok_iff.mp h
    obtain rfl := Except.ok.inj h
    exact .cons (Value.stored_eq_ok_iff.mp hv) (ih hrest)

theorem rowParams_spelled {columns : List Value} {documents : List Entries} {params : List Value}
    (h : rowParams columns documents = .ok params) :
    ∃ rows, List.Forall₂ (SpellsRow columns) documents rows ∧
      params = rows.flatMap Fragments.params ∧
      rows.map sql = documents.map fun _ => "(" ++ Dialect.placeholders columns.length ++ ")" := by
  induction documents generalizing params with
  | nil =>
    obtain rfl := Except.ok.inj h
    exact ⟨[], .nil, rfl, rfl⟩
  | cons document documents ih =>
    obtain ⟨row, hrow, h⟩ := except_bind_eq_ok_iff.mp h
    obtain ⟨more, hmore, h⟩ := except_bind_eq_ok_iff.mp h
    obtain ⟨rows, hrows, rfl, hsql⟩ := ih hmore
    obtain rfl := Except.ok.inj h
    have hvalues := documentParams_spelled hrow
    refine ⟨_, .cons ⟨row, hvalues, rfl⟩ hrows, by simp, ?_⟩
    rw [List.map_cons, List.map_cons, hsql, hvalues.length_eq]
    simp [Dialect.placeholders]

theorem compile_spelled {i : Insert} (h : i.compile j = .ok s j') :
    ∃ fs, i.Spells fs ∧ s = fs.statement := by
  obtain ⟨first, rest, names, params, upsert, hdocuments, -, hnames, hparams, hupsert, rfl⟩ :=
    statement_eq_ok (compile_eq_ok h)
  obtain ⟨rows, hrows, rfl, hsql⟩ := rowParams_spelled hparams
  refine ⟨_, ⟨first, rest, names, rows, upsert, hdocuments, hnames, hrows, hupsert, rfl⟩, ?_⟩
  simp [Fragments.statement, hsql]

end Insert

namespace Plan

variable {table : String} {plan next : Plan} {conditions having : List Fragments}

structure Holds (plan : Plan) (before after : List Fragments) : Prop where
  conditions : plan.conditions = before.map sql
  params : plan.params = before.flatMap Fragments.params
  having : plan.having = after.map sql
  havingParams : plan.havingParams = after.flatMap Fragments.params

theorem restrictingRows_sql (condition : Fragments) :
    (restrictingRows condition).map sql = restricting condition.sql := by
  unfold restrictingRows restricting
  split <;> rfl

/-- A condition that is left out has no values. -/
theorem restrictingRows_params {condition : Fragments} (h : condition.Tidy) :
    (restrictingRows condition).flatMap Fragments.params = condition.params := by
  unfold restrictingRows
  split
  · rename_i halways
    rw [Filter.params_eq_nil h (.inr halways), List.flatMap_nil]
  · simp

theorem step_spelled (hs : scope.Within V) {stage : Stage} (hp : plan.Holds conditions having)
    (h : step scope table plan stage j = .ok next j') :
    ∃ conditions' having', SpellsStage V stage conditions' having' ∧
      next.Holds (conditions ++ conditions') (having ++ having') := by
  have hplain : stage.isCondition = false → next.Holds conditions having →
      ∃ conditions' having', SpellsStage V stage conditions' having' ∧
        next.Holds (conditions ++ conditions') (having ++ having') := by
    intro hstage hnext
    exact ⟨[], [], .other hstage, by simpa using hnext⟩
  cases stage with
  | filter tree =>
    obtain ⟨⟨clause, params⟩, k, hcollect, h⟩ := bind_eq_ok_iff.mp h
    obtain ⟨rfl, -⟩ := pure_eq_ok_iff.mp h
    obtain ⟨condition, hcondition, rfl, rfl⟩ := Filter.collect_spelled hs hcollect
    have htidy := hcondition.tidy (Filter.tidyHandlers_of_within hs)
    refine ⟨_, _, .filter hcondition, ?_⟩
    rw [List.append_nil]
    exact { hp with
      conditions := by rw [List.map_append, restrictingRows_sql, hp.conditions]
      params := by rw [List.flatMap_append, restrictingRows_params htidy, hp.params] }
  | group spec =>
    obtain ⟨clause, k, -, h⟩ := bind_eq_ok_iff.mp h
    obtain ⟨rfl, -⟩ := pure_eq_ok_iff.mp h
    exact hplain rfl { hp with }
  | project columns =>
    refine hplain rfl ?_
    simp only [step] at h
    split at h
    · obtain ⟨rfl, -⟩ := pure_eq_ok_iff.mp h
      exact hp
    · obtain ⟨text, k, -, h⟩ := bind_eq_ok_iff.mp h
      obtain ⟨rfl, -⟩ := pure_eq_ok_iff.mp h
      exact { hp with }
  | having tree =>
    obtain ⟨⟨clause, params⟩, k, hcollect, h⟩ := bind_eq_ok_iff.mp h
    obtain ⟨rfl, -⟩ := pure_eq_ok_iff.mp h
    obtain ⟨condition, hcondition, rfl, rfl⟩ := Filter.collect_spelled hs hcollect
    have htidy := hcondition.tidy (Filter.tidyHandlers_of_within hs)
    refine ⟨_, _, .having hcondition, ?_⟩
    rw [List.append_nil]
    exact { hp with
      having := by rw [List.map_append, restrictingRows_sql, hp.having]
      havingParams := by rw [List.flatMap_append, restrictingRows_params htidy, hp.havingParams] }
  | _ =>
    obtain ⟨rfl, -⟩ := pure_eq_ok_iff.mp h
    exact hplain rfl { hp with }

theorem run_spelled (hs : scope.Within V) {stages : List Stage} (hp : plan.Holds conditions having)
    (h : run scope table plan stages j = .ok next j') :
    ∃ conditions' having', SpellsStages V stages conditions' having' ∧
      next.Holds (conditions ++ conditions') (having ++ having') := by
  induction stages generalizing plan conditions having j with
  | nil =>
    obtain ⟨rfl, -⟩ := pure_eq_ok_iff.mp h
    exact ⟨[], [], .nil, by simpa using hp⟩
  | cons stage stages ih =>
    obtain ⟨middle, k, hstep, h⟩ := bind_eq_ok_iff.mp h
    obtain ⟨_, _, hfirst, hmiddle⟩ := step_spelled hs hp hstep
    obtain ⟨_, _, hrest, hnext⟩ := ih hmiddle h
    exact ⟨_, _, .cons hfirst hrest, by simpa using hnext⟩

theorem conjunctionRows_sql (keyword : String) (conditions : List Fragments) :
    (conjunctionRows keyword conditions).map sql = conjunction keyword (conditions.map sql) := by
  cases conditions with
  | nil => rfl
  | cons condition conditions => simp [conjunctionRows, conjunction, Fragment.sql]

theorem conjunctionRows_params (keyword : String) (conditions : List Fragments) :
    (conjunctionRows keyword conditions).flatMap Fragments.params =
      conditions.flatMap Fragments.params := by
  cases conditions with
  | nil => rfl
  | cons condition conditions => simp [conjunctionRows, Fragment.params]

end Plan

theorem Aggregate.compile_spelled (hs : scope.Within V) {a : Aggregate}
    (h : Pipeline.compile scope a.table a.stages j = .ok s j') :
    ∃ fs, a.Spells V fs ∧ s = fs.statement := by
  obtain ⟨plan, k, hrun, rfl⟩ := Pipeline.compile_eq_ok h
  have hinitial : Plan.Holds {} [] [] := ⟨rfl, rfl, rfl, rfl⟩
  obtain ⟨conditions, having, hstages, hplan⟩ := Plan.run_spelled hs hinitial hrun
  refine ⟨_, ⟨plan, conditions, having, ⟨scope, j, k, hrun⟩, hstages, rfl⟩, ?_⟩
  simp [Fragments.statement, Plan.statement, hplan.conditions, hplan.params, hplan.having,
    hplan.havingParams, Plan.conjunctionRows_sql, Plan.conjunctionRows_params]

theorem Builder.compile_spelled (hs : scope.Within V) {b : Builder}
    (h : b.compile scope j = .ok s j') : ∃ fs, b.Spells V fs ∧ s = fs.statement := by
  cases b with
  | select q => exact Select.compile_spelled hs h
  | update u => exact Update.compile_spelled hs h
  | delete d => exact Delete.compile_spelled hs h
  | insert i => exact Insert.compile_spelled h
  | aggregate a => exact Aggregate.compile_spelled hs h

end BoundQuery
