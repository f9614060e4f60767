import BoundQuery.Proofs.Commuting
import BoundQuery.Proofs.Conjunction
import BoundQuery.Proofs.Reordering
import BoundQuery.Proofs.TextMap

/-! What a SELECT and a pipeline can both express. The one gathers its parts and writes them when it
is compiled, the other folds its stages into a plan; for the same parts, in whatever order they are
given, both come to the same statement. -/
namespace BoundQuery

theorem Fields.put_of_notMem {key : String} {fields : Fields} (h : key ∉ fields.map Prod.fst)
    (value : Value) : fields.put key value = fields ++ [(key, value)] := by
  induction fields with
  | nil => rfl
  | cons f rest ih =>
    obtain ⟨hne, hrest⟩ := not_or.mp (List.mem_cons.not.mp h)
    rw [Fields.put, if_neg (by simpa using Ne.symm hne), ih hrest, List.cons_append]

namespace Reading

theorem fieldsFrom_toEntries {read fields : Fields} (h : ((read ++ fields).map Prod.fst).Nodup) :
    fieldsFrom read fields.toEntries = .ok (read ++ fields) := by
  induction fields generalizing read with
  | nil => rw [List.append_nil]; rfl
  | cons f rest ih =>
    have hnotMem : f.1 ∉ read.map Prod.fst := by
      intro hmem
      rw [List.map_append] at h
      exact List.disjoint_of_nodup_append h hmem List.mem_cons_self
    have happend : read ++ f :: rest = (read ++ [f]) ++ rest := by simp
    rw [happend] at h ⊢
    rw [← ih h, ← Fields.put_of_notMem hnotMem]
    rfl

theorem fields_textMap (m : TextMap) : fields m.fields.toValue = .ok m.fields :=
  fieldsFrom_toEntries m.distinct

theorem textsFrom_map_str (index : Nat) (ss : List String) :
    textsFrom index (ss.map .str) = .ok ss := by
  induction ss generalizing index with
  | nil => rfl
  | cons s rest ih =>
    rw [List.map_cons, textsFrom, ih]
    rfl

theorem count_natCast (n : Nat) : count (.int n) = .ok n := by
  simp [count, integer]

end Reading

inductive Columns where
  | plain (names : List String)
  | titled (m : TextMap)

def Columns.toProjection : Columns → Projection
  | plain names => .columns (names.map .str)
  | titled m => .entries m.fields.toEntries

inductive Sorting where
  | text (s : String)
  | fields (m : TextMap)

def Sorting.toOrder : Sorting → Order
  | text s => .text s
  | fields m => .fields m.fields.toEntries

/-- A part of what a SELECT and a pipeline can be asked for alike. -/
inductive Ask where
  | filter (m : TextMap)
  | columns (given : Columns)
  | order (given : Sorting)
  | limit (n : Nat)
  | skip (n : Nat)

namespace Ask

def aspect : Ask → Aspect
  | filter _ => .filter
  | columns _ => .projection
  | order _ => .order
  | limit _ => .limit
  | skip _ => .offset

def selectCall : Ask → Builder.Call
  | filter m => .select (.query m.fields.toValue)
  | columns given => .select (.project given.toProjection.toValue)
  | order given => .select (.sort given.toOrder.toValue)
  | limit n => .select (.limit (.int n))
  | skip n => .select (.offset (.int n))

def aggregateCall : Ask → Builder.Call
  | filter m => .aggregate (.named .filter m.fields.toValue)
  | columns given => .aggregate (.project given.toProjection.toValue)
  | order given => .aggregate (.named .sort given.toOrder.toValue)
  | limit n => .aggregate (.named .limit (.int n))
  | skip n => .aggregate (.named .skip (.int n))

def put : Ask → Select → Select
  | filter m, s => { s with filter := s.filter.add m.fields.toEntries }
  | columns given, s => { s with projection := some given.toProjection }
  | order given, s => { s with order := some given.toOrder }
  | limit n, s => { s with limit := some n }
  | skip n, s => { s with offset := some n }

def stage : Ask → Stage
  | filter m => .filter m.fields
  | columns given => .project given.toProjection
  | order given => .sort given.toOrder
  | limit n => .limit n
  | skip n => .skip n

def putAll (asks : List Ask) (s : Select) : Select := asks.foldl (fun s a => a.put s) s

theorem apply_selectCall (a : Ask) (s : Select) :
    Builder.apply a.selectCall (.select s) = .ok () (.select (a.put s)) := by
  have hcount : ∀ (name : String) (n : Nat), Check.count .select name (.int n) = .ok n := by
    intro name n
    simp [Check.count]
  rw [Builder.apply_eq]
  cases a with
  | filter m => rfl
  | columns given => cases given <;> rfl
  | order given => cases given <;> rfl
  | limit n => simp [selectCall, Builder.read, Select.read, hcount, Builder.edited, Edit.run, put]
  | skip n => simp [selectCall, Builder.read, Select.read, hcount, Builder.edited, Edit.run, put]

theorem parse_namedStage {kind : StageKind} {v : Value} {s : Stage}
    (h : Stage.readNamed kind v = .ok s) : Stage.parse (Aggregate.namedStage kind v) = .ok s := by
  simp [Stage.parse, Aggregate.namedStage, h]

theorem readColumns_toProjection (given : Columns) :
    Stage.readColumns given.toProjection.toValue = .ok given.toProjection := by
  cases given with
  | plain names =>
    simp only [Stage.readColumns, Columns.toProjection, Projection.toValue, Reading.texts,
      Reading.textsFrom_map_str]
    rfl
  | titled m =>
    have hfields : Reading.fields (.map m.fields.toEntries) = .ok m.fields :=
      Reading.fields_textMap m
    simp only [Stage.readColumns, Columns.toProjection, Projection.toValue, hfields]
    rfl

theorem readOrder_toOrder (given : Sorting) :
    Stage.readOrder given.toOrder.toValue = .ok given.toOrder := by
  cases given with
  | text s => rfl
  | fields m =>
    have hfields : Reading.fields (.map m.fields.toEntries) = .ok m.fields :=
      Reading.fields_textMap m
    simp only [Stage.readOrder, Sorting.toOrder, Order.toValue, hfields]
    rfl

theorem columns_toProjection (given : Columns) :
    Aggregate.columns given.toProjection.toValue = .ok given.toProjection.toValue := by
  cases given <;> rfl

theorem read_aggregateCall (a : Ask) (g : Aggregate) :
    Builder.read a.aggregateCall (.aggregate g) = .ok (.stage a.stage) := by
  have hparse : ∀ {kind : StageKind} {v : Value}, Stage.readNamed kind v = .ok a.stage →
      Edit.stage <$> Stage.parse (Aggregate.namedStage kind v) = .ok (.stage a.stage) := by
    intro kind v h
    rw [parse_namedStage h]
    rfl
  cases a with
  | filter m =>
    refine hparse ?_
    simp only [Stage.readNamed, Stage.located, Stage.readContent, Reading.fields_textMap]
    rfl
  | columns given =>
    simp only [aggregateCall, Builder.read, Aggregate.read, columns_toProjection]
    refine hparse ?_
    simp only [Stage.readNamed, Stage.located, Stage.readContent, readColumns_toProjection]
    rfl
  | order given =>
    refine hparse ?_
    simp only [Stage.readNamed, Stage.located, Stage.readContent, readOrder_toOrder]
    rfl
  | limit n =>
    refine hparse ?_
    simp only [Stage.readNamed, Stage.located, Stage.readContent, Reading.count_natCast]
    rfl
  | skip n =>
    refine hparse ?_
    simp only [Stage.readNamed, Stage.located, Stage.readContent, Reading.count_natCast]
    rfl

section Proceed

variable (c : Catalogue) (j : Journal)

theorem proceed_selectCalls (asks : List Ask) (s : Select) :
    Builder.proceed c (asks.map fun a => .call a.selectCall) (.select s) j =
      some (.select (putAll asks s), j) := by
  induction asks generalizing s with
  | nil => rfl
  | cons a rest ih =>
    rw [List.map_cons, Builder.proceed, apply_selectCall]
    exact ih (a.put s)

theorem proceed_aggregateCalls (asks : List Ask) (g : Aggregate) :
    Builder.proceed c (asks.map fun a => .call a.aggregateCall) (.aggregate g) j =
      some (.aggregate { g with stages := g.stages ++ asks.map stage }, j) := by
  induction asks generalizing g with
  | nil => simp [Builder.proceed]
  | cons a rest ih =>
    rw [List.map_cons, Builder.proceed, Builder.apply_eq, read_aggregateCall]
    refine (ih { g with stages := g.stages ++ [a.stage] }).trans ?_
    simp

end Proceed

theorem put_comm {a b : Ask} (h : a.aspect ≠ b.aspect) (s : Select) :
    b.put (a.put s) = a.put (b.put s) := by
  cases a <;> cases b <;> first | rfl | exact absurd rfl h

/-- Of parts that are each asked for once, a SELECT makes the same in every order. -/
theorem putAll_perm {p q : List Ask} (h : p.Perm q) (honce : (p.map aspect).Nodup) (s : Select) :
    putAll p s = putAll q s := by
  refine h.foldl_eq' (fun a ha b hb s => ?_) s
  by_cases haspect : a.aspect = b.aspect
  · rw [List.inj_on_of_nodup_map honce ha hb haspect]
  · exact put_comm haspect s

end Ask

namespace Filter

variable {scope : Scope} {tree : Value}

/-- What a regular filter is compiled to is the same in every context. -/
theorem Regular.collect_returns_iff (h : Regular scope tree) (context : String) {text : String}
    {params : List Value} :
    (Compile.collect [] (compile scope context tree)).Returns (text, params) ↔
      Translates scope tree text params := by
  constructor
  · rintro ⟨j, j', hj⟩
    obtain ⟨d, hd, rfl⟩ := Compile.collect_run hj
    obtain ⟨-, vs, hvs, htranslates⟩ := h context _ _ _ hd
    rw [hvs]
    exact htranslates
  · intro htranslates
    exact ⟨{}, (htranslates context).collect [] {}⟩

end Filter

/-- The text that is written for columns where there are no joins. -/
def Projection.Writes (p : Option Projection) (text : String) : Prop :=
  match p with
  | none => text = "*"
  | some p =>
    if p.plainColumns.isEmpty then text = "*" else Value.join ", " p.plainColumns = .ok text

theorem Projection.clause_returns_iff {table : String} {p : Option Projection} {text : String} :
    (clause table [] p).Returns text ↔ Writes p text := by
  cases p with
  | none => exact Work.returns_pure_iff.trans eq_comm
  | some p =>
    have hempty : p.plainColumns.isEmpty = p.toColumns.isEmpty := by simp [plainColumns]
    simp only [clause, Writes, hempty]
    split
    · exact Work.returns_pure_iff.trans eq_comm
    · rw [if_pos List.isEmpty_nil, Work.returns_bind_iff fun text => .noted _ text]
      simp only [Work.returns_ofExcept_iff, Work.returns_noted_iff, exists_eq_right, plainColumns]

namespace Select

variable {scope : Scope} {s : Select}

/-- The conditions that a plan has for what was gathered, with the values for them. -/
def Restricts (scope : Scope) (filter : Accumulated) (conditions : List String)
    (params : List Value) : Prop :=
  if filter.isEmpty then conditions = [] ∧ params = []
  else ∃ text, conditions = [text] ∧
    (Compile.collect [] (Filter.compile scope "SELECT" filter.toTree)).Returns (text, params)

def Planned (scope : Scope) (s : Select) (plan : Plan) : Prop :=
  ∃ select conditions params, Projection.Writes s.projection select ∧
    Restricts scope s.filter conditions params ∧
    plan = { select, conditions, params, order := (s.order.map Order.clause).getD "",
             limit := s.limit, offset := s.offset }

theorem condition_returns_iff {texts : List String} {params : List Value} :
    (s.condition scope).Returns (texts, params) ↔
      ∃ conditions, Restricts scope s.filter conditions params ∧
        Plan.conjunction "WHERE" conditions = texts := by
  have hwhere : ∀ text, Plan.conjunction "WHERE" [text] = ["WHERE " ++ text] := by
    intro text
    have hkeyword : "WHERE" ++ " " = "WHERE " := rfl
    simp [Plan.conjunction, hkeyword]
  unfold condition Restricts
  split
  · rw [Work.returns_pure_iff, Prod.mk.injEq]
    constructor
    · rintro ⟨rfl, rfl⟩
      exact ⟨[], ⟨rfl, rfl⟩, rfl⟩
    · rintro ⟨conditions, ⟨rfl, rfl⟩, rfl⟩
      exact ⟨rfl, rfl⟩
  · rw [Work.returns_bind_iff fun _ => .pure _]
    simp [Work.returns_pure_iff, hwhere]

theorem compile_returns_iff_planned (hs : scope.Steady) (hjoins : s.joins = []) {st : Statement} :
    (s.compile scope).Returns st ↔ ∃ plan, s.Planned scope plan ∧ plan.statement s.table = st := by
  unfold compile
  rw [hjoins, Work.returns_bind_iff fun _ => (s.condition_steady hs).bind fun _ => .noted _ _]
  simp only [Work.returns_bind_iff fun _ => .noted _ _, Work.returns_noted_iff,
    Projection.clause_returns_iff, Prod.exists, condition_returns_iff]
  constructor
  · rintro ⟨select, hselect, texts, params, ⟨conditions, hconditions, rfl⟩, rfl⟩
    refine ⟨_, ⟨select, conditions, params, hselect, hconditions, rfl⟩, ?_⟩
    simp [Plan.statement, Plan.clause, Plan.conjunction]
  · rintro ⟨plan, ⟨select, conditions, params, hselect, hconditions, rfl⟩, rfl⟩
    refine ⟨select, hselect, _, params, ⟨conditions, hconditions, rfl⟩, ?_⟩
    simp [Plan.statement, Plan.clause, Plan.conjunction]

end Select

namespace Ask

variable {scope : Scope} {table : String}

/-- The part was not asked for before, where it would not just be replaced. -/
def Fresh (s : Select) : Ask → Prop
  | filter _ => s.filter = .empty
  | columns _ => s.projection = none
  | _ => True

theorem Fresh.put {s : Select} {a b : Ask} (ha : a.Fresh s) (h : b.aspect ≠ a.aspect) :
    a.Fresh (b.put s) := by
  cases a <;> cases b <;> first | exact ha | exact absurd rfl h

/-- A filter has to do without handlers, and to be translated to a condition that can fail. -/
def Plain (scope : Scope) : Ask → Prop
  | filter m => Filter.Unplugged scope m.fields.toValue ∧
      ∀ params, ¬Filter.Translates scope m.fields.toValue Dialect.alwaysTrue params
  | _ => True

/-- Only the empty filter is not gathered, and it always holds. -/
theorem add_toEntries {m : TextMap} (h : ∀ params,
    ¬Filter.Translates scope m.fields.toValue Dialect.alwaysTrue params) :
    Accumulated.empty.add m.fields.toEntries = .single m.fields.toEntries := by
  cases hfields : m.fields with
  | nil =>
    refine absurd (fun context d => ?_) (h [])
    rw [hfields]
    exact ⟨_, by rw [List.append_nil]; rfl⟩
  | cons f rest => rfl

theorem step_filter_returns_iff {m : TextMap} (hregular : Filter.Regular scope m.fields.toValue)
    (hrestricts : ∀ params, ¬Filter.Translates scope m.fields.toValue Dialect.alwaysTrue params)
    {plan plan' : Plan} (hparams : plan.params = []) :
    (plan.step scope table (.filter m.fields)).Returns plan' ↔
      ∃ text params, Filter.Translates scope m.fields.toValue text params ∧
        { plan with conditions := plan.conditions ++ [text], params } = plan' := by
  have hkept : ∀ {text params}, Filter.Translates scope m.fields.toValue text params →
      Plan.restricting text = [text] := by
    intro text params htranslates
    refine if_neg ?_
    rintro rfl
    exact hrestricts params htranslates
  rw [Plan.step, hparams, Work.returns_bind_iff fun _ => .pure _]
  simp only [Prod.exists, hregular.collect_returns_iff, Work.returns_pure_iff]
  refine exists_congr fun text => exists_congr fun params => and_congr_right fun htranslates => ?_
  rw [hkept htranslates]

theorem step_project_returns_iff {p : Projection} {plan plan' : Plan} (hselect : plan.select = "*")
    (hgrouped : plan.grouped = false) :
    (plan.step scope table (.project p)).Returns plan' ↔
      ∃ select, Projection.Writes (some p) select ∧ { plan with select } = plan' := by
  simp only [Plan.step, Projection.Writes]
  split
  · rw [Work.returns_pure_iff, exists_eq_left, ← hselect]
  · rw [Work.returns_bind_iff fun _ => .pure _]
    simp only [Work.returns_ofExcept_iff, Work.returns_pure_iff, hgrouped, Bool.false_eq_true,
      if_false]

/-- The stage for a part takes a plan for what was gathered before to one for what is gathered
then. -/
theorem planned_put_iff (hs : scope.Steady) (table : String) {a : Ask} (ha : a.Plain scope)
    {s : Select} (hfresh : a.Fresh s) {plan' : Plan} :
    (a.put s).Planned scope plan' ↔
      ∃ plan, s.Planned scope plan ∧ (plan.step scope table a.stage).Returns plan' := by
  cases a with
  | filter m =>
    obtain ⟨hunplugged, hrestricts⟩ := ha
    have hfilter : s.filter = .empty := hfresh
    have hregular := hunplugged.regular hs
    simp only [Select.Planned, Select.Restricts, put, stage, hfilter, add_toEntries hrestricts]
    constructor
    · rintro ⟨select, conditions, params, hselect, ⟨text, rfl, htext⟩, rfl⟩
      have htranslates := (hregular.collect_returns_iff _).mp htext
      refine ⟨_, ⟨select, [], [], hselect, ⟨rfl, rfl⟩, rfl⟩, ?_⟩
      exact (step_filter_returns_iff hregular hrestricts rfl).mpr ⟨text, params, htranslates, rfl⟩
    · rintro ⟨plan, ⟨select, conditions, params, hselect, ⟨rfl, rfl⟩, rfl⟩, hstep⟩
      obtain ⟨text, params, htranslates, rfl⟩ :=
        (step_filter_returns_iff hregular hrestricts rfl).mp hstep
      have htext := (hregular.collect_returns_iff "SELECT").mpr htranslates
      exact ⟨select, [text], params, hselect, ⟨text, rfl, htext⟩, rfl⟩
  | columns given =>
    have hprojection : s.projection = none := hfresh
    simp only [Select.Planned, put, stage, hprojection]
    constructor
    · rintro ⟨select, conditions, params, hselect, hconditions, rfl⟩
      refine ⟨_, ⟨"*", conditions, params, rfl, hconditions, rfl⟩, ?_⟩
      exact (step_project_returns_iff rfl rfl).mpr ⟨select, hselect, rfl⟩
    · rintro ⟨plan, ⟨_, conditions, params, rfl, hconditions, rfl⟩, hstep⟩
      obtain ⟨select, hselect, rfl⟩ := (step_project_returns_iff rfl rfl).mp hstep
      exact ⟨select, conditions, params, hselect, hconditions, rfl⟩
  | _ =>
    simp only [Select.Planned, put, stage, Plan.step, Work.returns_pure_iff]
    constructor
    · rintro ⟨select, conditions, params, hselect, hconditions, rfl⟩
      exact ⟨_, ⟨select, conditions, params, hselect, hconditions, rfl⟩, rfl⟩
    · rintro ⟨_, ⟨select, conditions, params, hselect, hconditions, rfl⟩, rfl⟩
      exact ⟨select, conditions, params, hselect, hconditions, rfl⟩

theorem planned_putAll_iff (hs : scope.Steady) (table : String) {asks : List Ask}
    (hplain : ∀ a ∈ asks, a.Plain scope) (honce : (asks.map aspect).Nodup) {s : Select}
    (hfresh : ∀ a ∈ asks, a.Fresh s) {plan' : Plan} :
    (putAll asks s).Planned scope plan' ↔
      ∃ plan, s.Planned scope plan ∧ (plan.run scope table (asks.map stage)).Returns plan' := by
  induction asks generalizing s with
  | nil => simp [putAll, Plan.run_nil_returns_iff]
  | cons a rest ih =>
    obtain ⟨hplain, hplains⟩ := List.forall_mem_cons.mp hplain
    obtain ⟨hfresh, hfreshs⟩ := List.forall_mem_cons.mp hfresh
    obtain ⟨hnotMem, honce⟩ := List.nodup_cons.mp honce
    have hlater : ∀ b ∈ rest, b.Fresh (a.put s) := fun b hb =>
      (hfreshs b hb).put fun h => hnotMem (h ▸ List.mem_map_of_mem hb)
    have hrest : (putAll (a :: rest) s).Planned scope plan' ↔ ∃ plan, (a.put s).Planned scope plan ∧
        (plan.run scope table (rest.map stage)).Returns plan' := ih hplains honce hlater
    simp only [hrest, planned_put_iff hs table hplain hfresh, List.map_cons,
      Plan.run_cons_returns_iff hs]
    constructor
    · rintro ⟨next, ⟨plan, hplan, hstep⟩, hrun⟩
      exact ⟨plan, hplan, next, hstep, hrun⟩
    · rintro ⟨plan, hplan, next, hstep, hrun⟩
      exact ⟨next, ⟨plan, hplan, hstep⟩, hrun⟩

theorem planned_start_iff {registry : RegistryId} {plan : Plan} :
    Select.Planned scope { table, registry } plan ↔ plan = {} := by
  simp [Select.Planned, Select.Restricts, Projection.Writes, Accumulated.isEmpty]

theorem putAll_keeps {α : Type} (f : Select → α) (hf : ∀ (a : Ask) s, f (a.put s) = f s)
    (asks : List Ask) (s : Select) : f (putAll asks s) = f s := by
  induction asks generalizing s with
  | nil => rfl
  | cons a rest ih => exact (ih (a.put s)).trans (hf a s)

/-- What is gathered for parts that are each asked for once is written as their stages are. -/
theorem compile_putAll_returns_iff (hs : scope.Steady) {asks : List Ask}
    (hplain : ∀ a ∈ asks, a.Plain scope) (honce : (asks.map aspect).Nodup) (registry : RegistryId)
    {st : Statement} :
    ((putAll asks { table, registry }).compile scope).Returns st ↔
      (Pipeline.compile scope table (asks.map stage)).Returns st := by
  have hfresh : ∀ a ∈ asks, a.Fresh { table, registry } := fun a _ => by cases a <;> trivial
  have hplanned : ∀ plan, (putAll asks { table, registry }).Planned scope plan ↔
      (Plan.run scope table {} (asks.map stage)).Returns plan := by
    intro plan
    simp only [planned_putAll_iff hs table hplain honce hfresh, planned_start_iff, exists_eq_left]
  have hjoins : (putAll asks { table, registry }).joins = [] :=
    putAll_keeps Select.joins (fun a _ => by cases a <;> rfl) asks _
  have htable : (putAll asks { table, registry }).table = table :=
    putAll_keeps Select.table (fun a _ => by cases a <;> rfl) asks _
  rw [Select.compile_returns_iff_planned hs hjoins, Pipeline.compile_returns_iff, htable]
  simp only [hplanned]

/-- A SELECT and a pipeline that are asked for the same parts, each in an order of its own, take all
the calls, and compile to the same statements. -/
theorem select_compiles_like_pipeline (c : Catalogue) (registry : RegistryId) (idField : Value)
    (table : String) (htable : Text.allBlank table = false) {p q : List Ask} (horder : p.Perm q)
    (honce : (p.map aspect).Nodup) (hplain : ∀ a ∈ p, a.Plain (c.scope registry)) (j k : Journal) :
    ∃ b b' s g,
      Builder.start .select (.str table) registry idField .null = .ok b ∧
      Builder.start .aggregate (.str table) registry idField .null = .ok b' ∧
      Builder.proceed c (p.map fun a => .call a.selectCall) b j = some (s, j) ∧
      Builder.proceed c (q.map fun a => .call a.aggregateCall) b' k = some (g, k) ∧
      ∀ st, (∃ j', s.compile (c.scope registry) j = .ok st j') ↔
        ∃ k', g.compile (c.scope registry) k = .ok st k' := by
  have hs := c.scope_steady registry
  have hchecked : ∀ kind, Check.table kind (.str table) = .ok table := fun kind => by
    simp [Check.table, htable]
  have hstart : Builder.start .select (.str table) registry idField .null =
      .ok (.select { table, registry }) := by
    simp only [Builder.start, hchecked]
    rfl
  have hstart' : Builder.start .aggregate (.str table) registry idField .null =
      .ok (.aggregate { table, registry }) := by
    simp only [Builder.start, Aggregate.start, hchecked]
    rfl
  refine ⟨_, _, _, _, hstart, hstart', proceed_selectCalls c j p _, proceed_aggregateCalls c k q _,
    fun st => ?_⟩
  rw [putAll_perm horder honce]
  have hsame : ((putAll q { table, registry }).compile (c.scope registry)).Returns st ↔
      (Pipeline.compile (c.scope registry) table (q.map stage)).Returns st :=
    compile_putAll_returns_iff hs (fun a ha => hplain a (horder.mem_iff.mpr ha))
      ((horder.map aspect).nodup_iff.mp honce) registry
  exact ((Select.compile_steady hs _).returns_iff j).symm.trans
    (hsame.trans ((Pipeline.compile_steady hs table _).returns_iff k))

def adults : TextMap where
  fields := [("age", .map [(.str "$gte", .int 18)])]
  distinct := by decide

def titledColumns : TextMap where
  fields := [("who", .str "$name"), ("age", .int 1), ("id", .int 0)]
  distinct := by decide

def youngestFirst : TextMap where
  fields := [("age", .int 1), ("name", .int (-1))]
  distinct := by decide

def secondPage : List Ask :=
  [.limit 10, .columns (.titled titledColumns), .filter adults, .skip 10,
    .order (.fields youngestFirst)]

def secondPageStatement : Statement where
  sql := "SELECT name AS who, age FROM people WHERE age >= ? " ++
    "ORDER BY age ASC, name DESC LIMIT 10 OFFSET 10"
  params := [.int 18]

theorem secondPage_compiles_like_reversed : ∃ s g,
    Builder.proceed {} (secondPage.map fun a => .call a.selectCall)
      (.select { table := "people" }) {} = some (s, {}) ∧
    Builder.proceed {} (secondPage.reverse.map fun a => .call a.aggregateCall)
      (.aggregate { table := "people" }) {} = some (g, {}) ∧
    (∃ j, s.compile (({} : Catalogue).scope 0) {} = .ok secondPageStatement j) ∧
    ∃ k, g.compile (({} : Catalogue).scope 0) {} = .ok secondPageStatement k := by
  have hplain : ∀ a ∈ secondPage, a.Plain (({} : Catalogue).scope 0) := by
    simp only [secondPage, List.forall_mem_cons, Plain, true_and]
    refine ⟨⟨fun _ _ => rfl, fun params htranslates => ?_⟩, by simp⟩
    obtain ⟨j, hj⟩ := htranslates "root" {}
    have htext : "age >= ?" = Dialect.alwaysTrue := (EStateM.Result.ok.inj hj).1
    exact absurd htext (by decide)
  obtain ⟨b, b', s, g, hb, hb', hs, hg, hsame⟩ :=
    select_compiles_like_pipeline {} 0 .null "people" (by decide) secondPage.reverse_perm.symm
      (by decide) hplain {} {}
  obtain rfl := Except.ok.inj hb
  obtain rfl := Except.ok.inj hb'
  have hgathered := Option.some.inj (hs.symm.trans (proceed_selectCalls {} {} secondPage _))
  have hselect : ∃ j, s.compile (({} : Catalogue).scope 0) {} = .ok secondPageStatement j := by
    rw [(Prod.mk.inj hgathered).1]
    refine ⟨?_, ?_⟩
    rotate_left
    · cbv
      rfl
  exact ⟨s, g, hs, hg, hselect, (hsame secondPageStatement).mp hselect⟩

end Ask

end BoundQuery
