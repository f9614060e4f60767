import BoundQuery.Catalogue
import BoundQuery.Proofs.Closure

/-! Statements compiled in two scopes. With the same handlers in both, what relates the steps of
compiling a statement, and passes from steps to the whole, relates the two compilations if it
relates the statements that the scopes have for sub-queries. Scopes that agree on what a builder
asks for compile it alike. -/
namespace BoundQuery

/-- A relation between pieces of work that passes from their steps to the whole, and that relates
each step to itself which statements take. -/
structure Work.Congruence (R : (α : Type) → Work α → Work α → Prop) : Prop where
  pure : ∀ {α : Type} (a : α), R α (pure a) (pure a)
  bind : ∀ {α β : Type} {w w' : Work α} {f f' : α → Work β}, R α w w' →
    (∀ a, R β (f a) (f' a)) → R β (w >>= f) (w' >>= f')
  throw : ∀ {α : Type} (e : Error), R α (throw e) (throw e)
  note : ∀ e, R Unit (Work.note e) (Work.note e)

/-- A property that passes from the steps of a piece of work to the whole, and that the steps have
which statements take. -/
structure Work.Closed (C : (α : Type) → Work α → Prop) : Prop where
  pure : ∀ {α : Type} (a : α), C α (pure a)
  bind : ∀ {α β : Type} {w : Work α} {f : α → Work β}, C α w → (∀ a, C β (f a)) → C β (w >>= f)
  throw : ∀ {α : Type} (e : Error), C α (throw e)
  note : ∀ e, C Unit (Work.note e)

theorem Work.Closed.congruence {C : (α : Type) → Work α → Prop} (hC : Closed C) :
    Congruence fun α w w' => w = w' ∧ C α w where
  pure a := ⟨rfl, hC.pure a⟩
  bind := by
    rintro α β w w' f f' ⟨rfl, hw⟩ hf
    obtain rfl : f = f' := funext fun a => (hf a).1
    exact ⟨rfl, hC.bind hw fun a => (hf a).2⟩
  throw e := ⟨rfl, hC.throw e⟩
  note e := ⟨rfl, hC.note e⟩

namespace Compile

variable {α β : Type}

theorem collect_bind (params : List Value) (c : Compile α) (f : α → Compile β) :
    collect params (c >>= f) = collect params c >>= fun r => collect r.2 (f r.1) := by
  funext j
  simp only [collect, Bind.bind, EStateM.bind]
  cases c ⟨params, j⟩ <;> rfl

theorem collect_ofWork (params : List Value) (work : Work α) :
    collect params (liftM work : Compile α) = work >>= fun a => pure (a, params) := by
  have hlift : (liftM work : Compile α) = Compile.ofWork work := rfl
  funext j
  simp only [hlift, collect, Compile.ofWork, Bind.bind, EStateM.bind]
  cases work j <;> rfl

/-- A handler does not look at the journal. -/
theorem collect_handler (params : List Value) (h : Handler) (field operand : Value)
    (context : String) : collect params (h.run field operand context) =
      match h field operand context params with
      | (values, .ok clause) => pure (clause, values)
      | (_, .error e) => throw e := by
  funext j
  simp only [collect, Handler.run]
  generalize h field operand context params = answer
  obtain ⟨values, result⟩ := answer
  cases result <;> rfl

/-- The computations are related as work, from the same values on. -/
def Collects (R : (α : Type) → Work α → Work α → Prop) (α : Type) (c c' : Compile α) : Prop :=
  ∀ params, R (α × List Value) (collect params c) (collect params c')

end Compile

namespace Work.Congruence

variable {R : (α : Type) → Work α → Work α → Prop} (hR : Congruence R) {α β : Type}

include hR

theorem map {w w' : Work α} {f : α → β} (hw : R α w w') : R β (f <$> w) (f <$> w') := by
  rw [map_eq_pure_bind, map_eq_pure_bind]
  exact hR.bind hw fun a => hR.pure (f a)

theorem ofExcept (x : Except Error α) : R α (liftM x : Work α) (liftM x : Work α) := by
  cases x with
  | ok a => exact hR.pure a
  | error e => exact hR.throw e

theorem noted (e : Event) (a : α) :
    R α (do Work.note e; return a) (do Work.note e; return a) :=
  hR.bind (hR.note e) fun _ => hR.pure a

theorem collects : Compile.Congruence (Compile.Collects R) where
  pure a params := hR.pure (a, params)
  bind := by
    intro α β c c' f f' hc hf params
    rw [Compile.collect_bind, Compile.collect_bind]
    exact hR.bind (hc params) fun r => hf r.1 r.2
  throw _ _ := hR.throw _
  bindAll values params := hR.pure ((), params ++ values)
  note e params := hR.noted e ((), params)
  bound hf params := hf params params

end Work.Congruence

/-- Scopes with the same handlers, and with related statements for the sub-queries among the
demands. -/
structure Scope.Beside (R : (α : Type) → Work α → Work α → Prop) (scope scope' : Scope)
    (demands : List Demand) : Prop where
  registry : scope.registry = scope'.registry
  embed : ∀ ref, .subquery ref ∈ demands → R Statement (scope.embed ref) (scope'.embed ref)

def Stage.demands : Stage → List Demand
  | .filter tree => Filter.demands tree.toValue
  | .having tree => Filter.demands tree.toValue
  | _ => []

def Builder.demands : Builder → List Demand
  | select s => Filter.demands s.filter.toTree
  | update u => Filter.demands u.filter.toTree
  | delete d => Filter.demands d.filter.toTree
  | insert _ => []
  | aggregate a => a.stages.flatMap Stage.demands

/-- To compile the source takes the statement of the sub-query. -/
def Catalogue.Asks (c : Catalogue) (source id : Nat) : Prop :=
  ∃ b ref, c.sources[source]? = some (.builder b) ∧ .subquery ref ∈ b.demands ∧ ref.id = id

section Related

variable {R : (α : Type) → Work α → Work α → Prop} (hR : Work.Congruence R) {scope scope' : Scope}

include hR

theorem Filter.collect_related {tree : Value} (h : scope.Beside R scope' (demands tree))
    (context : String) (params : List Value) :
    R (String × List Value) (Compile.collect params (compile scope context tree))
      (Compile.collect params (compile scope' context tree)) := by
  refine compile_related hR.collects (fun d hd => ?_) context params
  cases d with
  | operator field name operand =>
    simp only [Scope.Related, h.registry]
    cases scope'.registry.find? name with
    | none => exact .none
    | some handler =>
      refine .some fun context params => ?_
      rw [Compile.collect_handler]
      split
      · exact hR.pure _
      · exact hR.throw _
  | subquery ref =>
    intro params
    rw [Compile.collect_ofWork, Compile.collect_ofWork]
    exact hR.bind (h.embed ref hd) fun s => hR.pure (s, params)

theorem Delete.compile_related {d : Delete}
    (h : scope.Beside R scope' (Filter.demands d.filter.toTree)) :
    R Statement (d.compile scope) (d.compile scope') := by
  unfold Delete.compile
  split
  · exact hR.throw _
  · exact hR.bind (Filter.collect_related hR h _ _) fun _ => hR.noted _ _

theorem Projection.clause_related (table : String) (joins : List Join) (p : Option Projection) :
    R String (Projection.clause table joins p) (Projection.clause table joins p) := by
  cases p with
  | none => exact hR.pure _
  | some p =>
    unfold Projection.clause
    dsimp only
    split
    · exact hR.pure _
    · split
      · exact hR.bind (hR.ofExcept _) fun _ => hR.noted _ _
      · exact hR.bind (hR.map (hR.ofExcept _)) fun _ => hR.noted _ _

theorem Select.condition_related {s : Select}
    (h : scope.Beside R scope' (Filter.demands s.filter.toTree)) :
    R (List String × List Value) (s.condition scope) (s.condition scope') := by
  unfold Select.condition
  split
  · exact hR.pure _
  · exact hR.bind (Filter.collect_related hR h _ _) fun _ => hR.pure _

theorem Select.compile_related {s : Select}
    (h : scope.Beside R scope' (Filter.demands s.filter.toTree)) :
    R Statement (s.compile scope) (s.compile scope') := by
  refine hR.bind (Projection.clause_related hR s.table s.joins s.projection) fun columns => ?_
  exact hR.bind (Select.condition_related hR h) fun _ => hR.noted _ _

theorem Update.compile_related {u : Update}
    (h : scope.Beside R scope' (Filter.demands u.filter.toTree)) :
    R Statement (u.compile scope) (u.compile scope') := by
  have hoperators : ∀ operations, R Statement (u.operatorUpdate scope operations)
      (u.operatorUpdate scope' operations) := by
    intro operations
    refine hR.bind (hR.ofExcept _) fun a => ?_
    split
    · exact hR.throw _
    · exact hR.bind (Filter.collect_related hR h _ _) fun _ => hR.pure _
  have hrows : ∀ rows, R Statement (u.bulkUpdate scope rows) (u.bulkUpdate scope' rows) := by
    intro rows
    unfold Update.bulkUpdate
    dsimp only
    split
    · exact hR.throw _
    · split
      · exact hR.throw _
      · refine hR.bind (hR.ofExcept _) fun a => ?_
        exact hR.bind (Filter.collect_related hR h _ _) fun _ => hR.pure _
  unfold Update.compile
  split
  · exact hR.throw _
  · dsimp only
    split
    · exact hR.bind (hoperators _) fun _ => hR.noted _ _
    · exact hR.bind (hrows _) fun _ => hR.noted _ _
    · exact hR.bind (hR.throw _) fun _ => hR.noted _ _

theorem Insert.compile_related (i : Insert) : R Statement i.compile i.compile :=
  hR.bind (hR.ofExcept _) fun _ => hR.noted _ _

theorem GroupClause.ofSpec_related (spec : Fields) :
    R GroupClause (GroupClause.ofSpec spec) (GroupClause.ofSpec spec) := by
  unfold GroupClause.ofSpec
  generalize identityColumns (Stage.identity spec) = parts
  obtain ⟨columns, groupBy⟩ := parts
  refine hR.bind (hR.ofExcept _) fun outputs => ?_
  dsimp only
  split
  · exact hR.throw _
  · exact hR.noted _ _

theorem Plan.step_related (table : String) (plan : Plan) {stage : Stage}
    (h : scope.Beside R scope' stage.demands) :
    R Plan (plan.step scope table stage) (plan.step scope' table stage) := by
  cases stage with
  | filter tree => exact hR.bind (Filter.collect_related hR h _ _) fun _ => hR.pure _
  | having tree => exact hR.bind (Filter.collect_related hR h _ _) fun _ => hR.pure _
  | group spec => exact hR.bind (GroupClause.ofSpec_related hR spec) fun _ => hR.pure _
  | project columns =>
    simp only [Plan.step]
    split
    · exact hR.pure _
    · exact hR.bind (hR.ofExcept _) fun _ => hR.pure _
  | _ => exact hR.pure _

theorem Plan.run_related (table : String) (plan : Plan) {stages : List Stage}
    (h : scope.Beside R scope' (stages.flatMap Stage.demands)) :
    R Plan (plan.run scope table stages) (plan.run scope' table stages) := by
  induction stages generalizing plan with
  | nil => exact hR.pure plan
  | cons stage stages ih =>
    rw [List.flatMap_cons] at h
    have hstage : scope.Beside R scope' stage.demands :=
      ⟨h.registry, fun ref href => h.embed ref (List.mem_append_left _ href)⟩
    have hstages : scope.Beside R scope' (stages.flatMap Stage.demands) :=
      ⟨h.registry, fun ref href => h.embed ref (List.mem_append_right _ href)⟩
    exact hR.bind (plan.step_related hR table hstage) fun next => ih next hstages

theorem Pipeline.compile_related (table : String) {stages : List Stage}
    (h : scope.Beside R scope' (stages.flatMap Stage.demands)) :
    R Statement (compile scope table stages) (compile scope' table stages) :=
  hR.bind (Plan.run_related hR table {} h) fun _ => hR.noted _ _

/-- The two statements of a builder are related if those of the sub-queries are that it asks for. -/
theorem Builder.compile_related {b : Builder} (h : scope.Beside R scope' b.demands) :
    R Statement (b.compile scope) (b.compile scope') := by
  cases b with
  | select s => exact Select.compile_related hR h
  | update u => exact Update.compile_related hR h
  | delete d => exact Delete.compile_related hR h
  | insert i => exact Insert.compile_related hR i
  | aggregate a => exact Pipeline.compile_related hR a.table h

theorem Catalogue.compileSource_related (c : Catalogue) {embed embed' : Nat → Work Statement}
    (source : Nat) (h : ∀ id, c.Asks source id → R Statement (embed id) (embed' id)) :
    R Statement (c.compileSource embed source) (c.compileSource embed' source) := by
  unfold compileSource
  split
  case h_1 b hb =>
    exact Builder.compile_related hR ⟨rfl, fun ref href => h ref.id ⟨b, ref, hb, href, rfl⟩⟩
  · exact hR.pure _
  · exact hR.throw _

end Related

section Equality

variable {scope scope' : Scope}

theorem Delete.compile_congr {d : Delete}
    (h : ∀ demand ∈ Filter.demands d.filter.toTree, scope.AgreeOn scope' demand) :
    d.compile scope = d.compile scope' := by
  rw [compile, compile, Filter.compile_congr h]

theorem Select.compile_congr {s : Select}
    (h : ∀ demand ∈ Filter.demands s.filter.toTree, scope.AgreeOn scope' demand) :
    s.compile scope = s.compile scope' := by
  have hcondition : s.condition scope = s.condition scope' := by
    rw [condition, condition, Filter.compile_congr h]
  rw [compile, compile, hcondition]

theorem Update.compile_congr {u : Update}
    (h : ∀ demand ∈ Filter.demands u.filter.toTree, scope.AgreeOn scope' demand) :
    u.compile scope = u.compile scope' := by
  have hoperators : ∀ operations,
      u.operatorUpdate scope operations = u.operatorUpdate scope' operations := by
    intro operations
    rw [operatorUpdate, operatorUpdate, Filter.compile_congr h]
  have hrows : ∀ rows, u.bulkUpdate scope rows = u.bulkUpdate scope' rows := by
    intro rows
    rw [bulkUpdate, bulkUpdate, Filter.compile_congr h]
  simp only [compile, hoperators, hrows]

theorem Plan.step_congr {stage : Stage} (h : ∀ demand ∈ stage.demands, scope.AgreeOn scope' demand)
    (table : String) (plan : Plan) : plan.step scope table stage = plan.step scope' table stage := by
  cases stage with
  | filter tree => rw [step, step, Filter.compile_congr h]
  | having tree => rw [step, step, Filter.compile_congr h]
  | _ => rfl

theorem Plan.run_congr {stages : List Stage}
    (h : ∀ demand ∈ stages.flatMap Stage.demands, scope.AgreeOn scope' demand) (table : String)
    (plan : Plan) : plan.run scope table stages = plan.run scope' table stages := by
  induction stages generalizing plan with
  | nil => rfl
  | cons stage stages ih =>
    obtain ⟨hstage, hstages⟩ := List.forall_mem_append.mp (List.flatMap_cons ▸ h)
    have hrest : (run scope table · stages) = (run scope' table · stages) :=
      funext fun next => ih hstages next
    rw [run, run, plan.step_congr hstage table, hrest]

/-- A builder is compiled alike in scopes that agree on what it asks for. -/
theorem Builder.compile_congr {b : Builder}
    (h : ∀ demand ∈ b.demands, scope.AgreeOn scope' demand) : b.compile scope = b.compile scope' := by
  cases b with
  | select s => exact Select.compile_congr h
  | update u => exact Update.compile_congr h
  | delete d => exact Delete.compile_congr h
  | insert i => rfl
  | aggregate a =>
    have hrun := Plan.run_congr h a.table {}
    rw [compile, compile, Aggregate.compile, Aggregate.compile, Pipeline.compile, Pipeline.compile,
      hrun]

end Equality

end BoundQuery
