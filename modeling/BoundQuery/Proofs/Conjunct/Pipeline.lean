import BoundQuery.Proofs.Conjunct.Condition
import BoundQuery.Proofs.Discipline.Session
import BoundQuery.Proofs.Discipline.Statement
import BoundQuery.Proofs.Registration

/-! A pipeline puts `AND` between its conditions without parentheses around them. That is safe: no
condition has an `OR` outside of parentheses, so that outside of parentheses the clause consists of
the conjuncts of its conditions. This takes conditions that no handler writes, and text without
parentheses wherever text is taken as it was given, in the sub-queries of the conditions too. -/
namespace BoundQuery

open Text

def Work.Encloses (work : Work Statement) : Prop :=
  ∀ j s j', work j = .ok s j' → Enclosed s.sql

open Classical in
/-- The scope without its handlers, and without the sub-queries that are not in parentheses. What
does not ask for those is compiled in it as before. -/
noncomputable def Scope.enclosing (scope : Scope) : Scope where
  registry := {}
  embed ref := if (scope.embed ref).Encloses then scope.embed ref else throw .circular

namespace Scope

variable {scope : Scope}

theorem enclosing_encloses : scope.enclosing.vocabulary.Encloses where
  handler _ := rfl
  subquery := by
    rintro ref s ⟨j, j', h⟩
    simp only [enclosing] at h
    split at h
    · exact ‹(scope.embed ref).Encloses› j s j' h
    · exact absurd h throw_ne_ok

theorem enclosing_within : scope.enclosing.Within scope.enclosing.vocabulary := by
  refine Scope.Appends.within fun name h hfind => ?_
  cases hfind

/-- Where no handler is asked for, and each sub-query is in parentheses, nothing is missed. -/
theorem agreeOn_enclosing {demands : List Demand}
    (hfree : ∀ field name operand, .operator field name operand ∈ demands →
      scope.registry.find? name = none)
    (hembed : ∀ ref, .subquery ref ∈ demands → (scope.embed ref).Encloses) :
    ∀ d ∈ demands, scope.AgreeOn scope.enclosing d := by
  intro d hd
  cases d with
  | operator field name operand =>
    simp only [AgreeOn, hfree field name operand hd]
    rfl
  | subquery ref => exact (if_pos (hembed ref hd)).symm

end Scope

theorem Builder.compile_balanced {scope : Scope} {b : Builder} (hb : b.RawText ParenFree)
    (hfree : ∀ field name operand, .operator field name operand ∈ b.demands →
      scope.registry.find? name = none)
    (hembed : ∀ ref, .subquery ref ∈ b.demands → (scope.embed ref).Encloses)
    {s : Statement} {j j' : Journal} (h : b.compile scope j = .ok s j') : Balanced s.sql := by
  rw [Builder.compile_congr (Scope.agreeOn_enclosing hfree hembed)] at h
  obtain ⟨fs, hfs, rfl⟩ := Builder.compile_spelled Scope.enclosing_within h
  exact hfs.keeps Scope.enclosing_encloses.keeps hb 0

theorem Filter.compile_conjoined {scope : Scope} {tree : Value} (hwords : Names OneWord tree)
    (hparens : Names ParenFree tree)
    (hfree : ∀ field name operand, .operator field name operand ∈ demands tree →
      scope.registry.find? name = none)
    (hembed : ∀ ref, .subquery ref ∈ demands tree → (scope.embed ref).Encloses)
    {context text : String} {d d' : Draft} (h : compile scope context tree d = .ok text d') :
    Conjoined text := by
  rw [compile_congr (Scope.agreeOn_enclosing hfree hembed)] at h
  obtain ⟨_, -, fs, hfs, rfl, -⟩ :=
    (compile_spelled Scope.enclosing_within).1 context tree d text d' h
  exact hfs.conjoined Scope.enclosing_encloses hwords hparens

namespace Catalogue

variable {c : Catalogue} {own : RegistryId} {tree : Value}

/-- A filter whose condition can be joined with others: its fields are single words, it and its
sub-queries apply no operator that has a handler, and all text that is taken as it was given, in the
sub-queries too, is free of parentheses. -/
structure Joinable (c : Catalogue) (own : RegistryId) (tree : Value) : Prop where
  words : Filter.Names OneWord tree
  names : Filter.Names ParenFree tree
  unplugged : ∀ id operator, c.Consults own id operator tree → (c.registry id).find? operator = none
  nested : ∀ ref inner source s, .subquery ref ∈ Filter.demands tree → c.Within inner ref.id →
    c.targets[inner]? = some (.source source) → c.sources[source]? = some s → s.Keeps .balanced

theorem compileSource_balanced {embed : Nat → Work Statement} {source : Nat}
    (hfree : ∀ b operator, c.sources[source]? = some (.builder b) → operator ∈ b.applied →
      (c.registry b.registry).find? operator = none)
    (hkeeps : ∀ s, c.sources[source]? = some s → s.Keeps .balanced)
    (hembed : ∀ inner, c.Asks source inner → (embed inner).Encloses)
    {s : Statement} {j j' : Journal} (h : c.compileSource embed source j = .ok s j') :
    Balanced s.sql := by
  unfold compileSource at h
  cases hsource : c.sources[source]? with
  | none =>
    simp only [hsource] at h
    exact absurd h throw_ne_ok
  | some given =>
    have hgiven := hkeeps given hsource
    simp only [hsource] at h
    cases given with
    | fixed t =>
      obtain ⟨rfl, -⟩ := pure_eq_ok_iff.mp h
      exact hgiven 0
    | builder b =>
      refine Builder.compile_balanced hgiven (fun field name operand hd => ?_) (fun ref hd => ?_) h
      · exact hfree b name hsource (Builder.mem_applied hd)
      · exact hembed ref.id ⟨b, ref, hsource, hd, rfl⟩

/-- By induction on the depth: what a sub-query asks for is nested one less deep, and in it. -/
theorem embed_encloses {id : Nat}
    (hfree : ∀ inner registry operator, c.Within inner id → c.Applies registry operator inner →
      (c.registry registry).find? operator = none)
    (hnested : ∀ inner source s, c.Within inner id → c.targets[inner]? = some (.source source) →
      c.sources[source]? = some s → s.Keeps .balanced) (n : Nat) : (c.embed n id).Encloses := by
  induction n generalizing id with
  | zero => exact fun j s j' h => absurd h throw_ne_ok
  | succ n ih =>
    intro j s j' h
    obtain ⟨source, t, k, htarget, hsource, hkeep⟩ := nested_eq_ok_iff.mp h
    obtain ⟨l, hl⟩ := keep_eq id t k
    obtain ⟨rfl, -⟩ := EStateM.Result.ok.inj (hl.symm.trans hkeep)
    refine ⟨t.sql, compileSource_balanced (fun b operator hb happlied => ?_) (fun given hgiven => ?_)
      (fun inner hasks => ?_) hsource, rfl⟩
    · exact hfree id b.registry operator .refl ⟨source, b, htarget, hb, rfl, happlied⟩
    · exact hnested id source given .refl htarget hgiven
    · have hnests : c.Nests id inner := .inl ⟨source, htarget, hasks⟩
      exact ih (fun deeper registry operator hin => hfree deeper registry operator (.head hnests hin))
        fun deeper source s hin => hnested deeper source s (.head hnests hin)

theorem Joinable.conjoined (h : c.Joinable own tree) {context text : String} {d d' : Draft}
    (hd : Filter.compile (c.scope own) context tree d = .ok text d') : Conjoined text := by
  refine Filter.compile_conjoined h.words h.names (fun field name operand hname => ?_)
    (fun ref href => ?_) hd
  · exact h.unplugged own name (.inl ⟨rfl, Filter.mem_applied hname⟩)
  · refine embed_encloses (fun inner registry operator hin happlies => ?_)
      (fun inner source s hin => h.nested ref inner source s href hin) c.depth
    exact h.unplugged registry operator (.inr ⟨ref, inner, href, hin, happlies⟩)

end Catalogue

def Stage.rowFilters : Stage → List Value
  | .filter tree => [tree.toValue]
  | _ => []

def Stage.groupFilters : Stage → List Value
  | .having tree => [tree.toValue]
  | _ => []

def Filter.CompilesTo (scope : Scope) (context : String) (tree : Value) (text : String) : Prop :=
  ∃ d d', compile scope context tree d = .ok text d'

namespace Plan

variable {scope : Scope} {table : String} {plan next : Plan} {j j' : Journal}

/-- From one plan to another, the conditions for the filters are added, but for those that always
hold. -/
structure Collects (scope : Scope) (rowFilters groupFilters : List Value) (plan next : Plan)
    (rowTexts groupTexts : List String) : Prop where
  rows : List.Forall₂ (Filter.CompilesTo scope "$match") rowFilters rowTexts
  groups : List.Forall₂ (Filter.CompilesTo scope "$having") groupFilters groupTexts
  conditions : next.conditions = plan.conditions ++ rowTexts.filter (· ≠ Dialect.alwaysTrue)
  having : next.having = plan.having ++ groupTexts.filter (· ≠ Dialect.alwaysTrue)

/-- The text of the statement with the given conditions for rows and for groups, or without. -/
def Shows (plan : Plan) (table : String) (rows groups : Option String) (sql : String) : Prop :=
  sql = " ".intercalate (["SELECT " ++ plan.select, "FROM " ++ table] ++ plan.joins ++ plan.comments
    ++ (rows.map ("WHERE " ++ ·)).toList ++ clause "GROUP BY" plan.groupBy
    ++ (groups.map ("HAVING " ++ ·)).toList ++ clause "ORDER BY" plan.order
    ++ paging plan.limit plan.offset)

theorem restricting_eq_filter (clause : String) :
    restricting clause = [clause].filter (· ≠ Dialect.alwaysTrue) := by
  by_cases h : clause = Dialect.alwaysTrue <;> simp [restricting, h]

theorem step_collects {stage : Stage} (h : step scope table plan stage j = .ok next j') :
    ∃ rowTexts groupTexts,
      Collects scope stage.rowFilters stage.groupFilters plan next rowTexts groupTexts := by
  have hsame : ∀ {stage : Stage}, stage.rowFilters = [] → stage.groupFilters = [] →
      next.conditions = plan.conditions → next.having = plan.having →
      ∃ rowTexts groupTexts,
        Collects scope stage.rowFilters stage.groupFilters plan next rowTexts groupTexts := by
    intro stage hrows hgroups hconditions hhaving
    refine ⟨[], [], ?_⟩
    rw [hrows, hgroups]
    exact ⟨.nil, .nil, by simpa using hconditions, by simpa using hhaving⟩
  cases stage with
  | filter tree =>
    obtain ⟨⟨clause, params⟩, k, hcollect, h⟩ := bind_eq_ok_iff.mp h
    obtain ⟨d, hd, -⟩ := Compile.collect_run hcollect
    obtain ⟨rfl, -⟩ := pure_eq_ok_iff.mp h
    refine ⟨[clause], [], .cons ⟨_, d, hd⟩ .nil, .nil, ?_, by simp⟩
    rw [← restricting_eq_filter]
  | having tree =>
    obtain ⟨⟨clause, params⟩, k, hcollect, h⟩ := bind_eq_ok_iff.mp h
    obtain ⟨d, hd, -⟩ := Compile.collect_run hcollect
    obtain ⟨rfl, -⟩ := pure_eq_ok_iff.mp h
    refine ⟨[], [clause], .nil, .cons ⟨_, d, hd⟩ .nil, by simp, ?_⟩
    rw [← restricting_eq_filter]
  | group spec =>
    obtain ⟨clause, k, -, h⟩ := bind_eq_ok_iff.mp h
    obtain ⟨rfl, -⟩ := pure_eq_ok_iff.mp h
    exact hsame rfl rfl rfl rfl
  | project columns =>
    simp only [step] at h
    split at h
    · obtain ⟨rfl, -⟩ := pure_eq_ok_iff.mp h
      exact hsame rfl rfl rfl rfl
    · obtain ⟨text, k, -, h⟩ := bind_eq_ok_iff.mp h
      obtain ⟨rfl, -⟩ := pure_eq_ok_iff.mp h
      exact hsame rfl rfl rfl rfl
  | _ =>
    obtain ⟨rfl, -⟩ := pure_eq_ok_iff.mp h
    exact hsame rfl rfl rfl rfl

theorem run_collects {stages : List Stage} (h : run scope table plan stages j = .ok next j') :
    ∃ rowTexts groupTexts, Collects scope (stages.flatMap Stage.rowFilters)
      (stages.flatMap Stage.groupFilters) plan next rowTexts groupTexts := by
  induction stages generalizing plan j with
  | nil =>
    obtain ⟨rfl, -⟩ := pure_eq_ok_iff.mp h
    exact ⟨[], [], .nil, .nil, by simp, by simp⟩
  | cons stage stages ih =>
    obtain ⟨middle, k, hstep, h⟩ := bind_eq_ok_iff.mp h
    obtain ⟨rowTexts, groupTexts, hfirst⟩ := step_collects hstep
    obtain ⟨rowTexts', groupTexts', hrest⟩ := ih h
    refine ⟨rowTexts ++ rowTexts', groupTexts ++ groupTexts',
      List.rel_append hfirst.rows hrest.rows, List.rel_append hfirst.groups hrest.groups, ?_, ?_⟩
    · rw [hrest.conditions, hfirst.conditions, List.filter_append, List.append_assoc]
    · rw [hrest.having, hfirst.having, List.filter_append, List.append_assoc]

end Plan

namespace Catalogue

variable {c : Catalogue} {own : RegistryId} {tree : Value}

theorem Joinable.of_sources (hwords : Filter.Names OneWord tree)
    (hnames : Filter.Names ParenFree tree)
    (hunplugged : ∀ id operator, c.Consults own id operator tree →
      (c.registry id).find? operator = none)
    (hsources : ∀ s ∈ c.sources, s.Keeps .balanced) : c.Joinable own tree where
  words := hwords
  names := hnames
  unplugged := hunplugged
  nested _ _ _ s _ _ _ hs := hsources s (List.mem_of_getElem? hs)

theorem Joinable.all_conjoined {trees : List Value} (h : ∀ tree ∈ trees, c.Joinable own tree)
    {context : String} {texts : List String}
    (htexts : List.Forall₂ (Filter.CompilesTo (c.scope own) context) trees texts) :
    ∀ text ∈ texts, Conjoined text := by
  induction htexts with
  | nil => simp
  | @cons tree text trees texts first _ ih =>
    obtain ⟨d, d', hd⟩ := first
    have hfirst := (h tree List.mem_cons_self).conjoined hd
    exact List.forall_mem_cons.mpr ⟨hfirst, ih fun t ht => h t (List.mem_cons_of_mem _ ht)⟩

theorem Joinable.joins {trees : List Value} (h : ∀ tree ∈ trees, c.Joinable own tree)
    {context : String} {texts : List String}
    (htexts : List.Forall₂ (Filter.CompilesTo (c.scope own) context) trees texts) (keyword : String) :
    ∃ body, Joins (texts.filter (· ≠ Dialect.alwaysTrue)) body ∧
      Plan.conjunction keyword (texts.filter (· ≠ Dialect.alwaysTrue)) =
        (body.map (keyword ++ " " ++ ·)).toList := by
  have hconjoined : ∀ text ∈ texts.filter (· ≠ Dialect.alwaysTrue), Conjoined text :=
    fun text htext => all_conjoined h htexts text (List.mem_of_mem_filter htext)
  generalize texts.filter (· ≠ Dialect.alwaysTrue) = kept at hconjoined ⊢
  cases kept with
  | nil => exact ⟨none, .none, rfl⟩
  | cons first rest => exact ⟨some _, .of_conjoined (List.cons_ne_nil _ _) hconjoined, rfl⟩

/-- The text of a joinable filter is balanced and has no `OR` outside of parentheses: it is its
conjuncts, with `AND` between them. So the conditions of a pipeline, for rows as for groups, put
together with `AND` come apart outside of parentheses at their own conjuncts, whatever stages there
are. In a session whose text is given without parentheses every filter is joinable that names its
fields as it should and finds no handler. -/
theorem joined_conditions_split_into_conjuncts (c : Catalogue) (own : RegistryId) :
    (∀ context tree d text d', c.Joinable own tree →
      Filter.compile (c.scope own) context tree d = .ok text d' →
        Balanced text ∧ (∀ before after, text = before ++ " OR " ++ after → ¬ Balanced before) ∧
        " AND ".intercalate (conjuncts text) = text ∧ ∀ part ∈ conjuncts text, Unjoined part) ∧
    (∀ table stages j s j', (∀ tree ∈ stages.flatMap Stage.rowFilters, c.Joinable own tree) →
      (∀ tree ∈ stages.flatMap Stage.groupFilters, c.Joinable own tree) →
      Pipeline.compile (c.scope own) table stages j = .ok s j' →
        ∃ plan k rowTexts groupTexts rows groups,
          Plan.run (c.scope own) table {} stages j = .ok plan k ∧
          List.Forall₂ (Filter.CompilesTo (c.scope own) "$match")
            (stages.flatMap Stage.rowFilters) rowTexts ∧
          List.Forall₂ (Filter.CompilesTo (c.scope own) "$having")
            (stages.flatMap Stage.groupFilters) groupTexts ∧
          Joins (rowTexts.filter (· ≠ Dialect.alwaysTrue)) rows ∧
          Joins (groupTexts.filter (· ≠ Dialect.alwaysTrue)) groups ∧
          plan.Shows table rows groups s.sql) ∧
    ∀ actions own tree, (∀ action ∈ actions, Session.Action.Keeps .balanced action) →
      Filter.Names OneWord tree → Filter.Names ParenFree tree →
      (∀ id operator, (Session.run actions {}).Consults own id operator tree →
        ((Session.run actions {}).registry id).find? operator = none) →
      (Session.run actions {}).Joinable own tree := by
  refine ⟨fun context tree d text d' htree hd => ?_, fun table stages j s j' hrows hgroups hs => ?_,
    fun actions own tree hactions hwords hnames hunplugged => ?_⟩
  · have htext := htree.conjoined hd
    exact ⟨htext.balanced, htext.not_balanced_before_or, htext.conjuncts_spec⟩
  · obtain ⟨plan, k, hrun, rfl⟩ := Pipeline.compile_eq_ok hs
    obtain ⟨rowTexts, groupTexts, hcollects⟩ := Plan.run_collects hrun
    obtain ⟨rows, hjoinsRows, hwhere⟩ := Joinable.joins hrows hcollects.rows "WHERE"
    obtain ⟨groups, hjoinsGroups, hhaving⟩ := Joinable.joins hgroups hcollects.groups "HAVING"
    refine ⟨plan, k, rowTexts, groupTexts, rows, groups, hrun, hcollects.rows, hcollects.groups,
      hjoinsRows, hjoinsGroups, ?_⟩
    have hconditions := hcollects.conditions
    have hgroup := hcollects.having
    rw [List.nil_append] at hconditions hgroup
    rw [Plan.Shows, Plan.statement, hconditions, hgroup, hwhere, hhaving]
    rfl
  · exact .of_sources hwords hnames hunplugged (Session.run_sources_keep hactions)

def largeOrders : List Session.Action :=
  [.start .select (.str "orders") 0 .null .null,
   .call 0 (.select (.query (.map [(.str "total", .map [(.str "$gt", .int 5)])]))),
   .wrap (.source 0)]

def eitherOrder : Fields :=
  [("$or", .list [.map [(.str "rank", .int 1)],
      .map [(.str "id", .map [(.str "$in", .subquery ⟨0, "SubQuery(SELECT)"⟩)])]]),
    ("age", .map [(.str "$gt", .int 17), (.str "$lt", .int 65)])]

def fourFilters : List Stage :=
  [.filter eitherOrder,
    .having [("$or", .list [.map [(.str "n", .int 1)], .map [(.str "m", .int 2)]])],
    .filter [("city", .str "Bern")], .having [("n", .map [(.str "$gt", .int 1)])]]

theorem largeOrders_keep : ∀ action ∈ largeOrders, Session.Action.Keeps .balanced action := by
  have hnames : Filter.Names ParenFree (.map [(.str "total", .map [(.str "$gt", .int 5)])]) :=
    ⟨show ParenFree "total" by decide, trivial⟩
  have hstart : Builder.StartText ParenFree (.str "orders") .null .null :=
    ⟨by decide, by decide, fun stages h => nomatch h⟩
  simp only [largeOrders, List.forall_mem_cons]
  exact ⟨hstart, hnames, trivial, by simp⟩

/-- No handler is registered. -/
theorem registry_largeOrders (id : RegistryId) : (Session.run largeOrders {}).registry id = {} := by
  cases id with
  | zero => rfl
  | succ n => rfl

def fourFiltersText : String :=
  "SELECT * FROM users WHERE ((rank = ?) OR (id IN (SELECT * FROM orders WHERE total > ?)))" ++
    " AND (age > ? AND age < ?) AND city = ? HAVING ((n = ?) OR (m = ?)) AND n > ?"

theorem compile_fourFilters : ∃ s j',
    Pipeline.compile ((Session.run largeOrders {}).scope 0) "users" fourFilters {} = .ok s j' ∧
    s.sql = fourFiltersText := by
  have hsql : ((Work.outcome (Pipeline.compile ((Session.run largeOrders {}).scope 0) "users"
      fourFilters {})).toOption.map Statement.sql) = some fourFiltersText := by
    decide +kernel
  cases h : Pipeline.compile ((Session.run largeOrders {}).scope 0) "users" fourFilters {} with
  | ok s j =>
    rw [h] at hsql
    exact ⟨s, j, rfl, Option.some.inj hsql⟩
  | error e j =>
    rw [h] at hsql
    cases hsql

theorem fourFilters_names {p : String → Prop}
    (h : ∀ name ∈ ["rank", "id", "age", "city", "n", "m"], p name) :
    ∀ tree ∈ fourFilters.flatMap Stage.rowFilters ++ fourFilters.flatMap Stage.groupFilters,
      Filter.Names p tree := by
  simp only [List.forall_mem_cons, List.not_mem_nil, false_implies, implies_true, and_true] at h
  obtain ⟨hrank, hid, hage, hcity, hn, hm⟩ := h
  have heither : Filter.Names p eitherOrder.toValue :=
    ⟨⟨⟨hrank, trivial⟩, ⟨hid, trivial⟩, trivial⟩, hage, trivial⟩
  intro tree htree
  rcases List.mem_cons.mp htree with rfl | htree
  · exact heither
  rcases List.mem_cons.mp htree with rfl | htree
  · exact ⟨hcity, trivial⟩
  rcases List.mem_cons.mp htree with rfl | htree
  · exact ⟨⟨⟨hn, trivial⟩, ⟨hm, trivial⟩, trivial⟩, trivial⟩
  · obtain rfl := List.mem_singleton.mp htree
    exact ⟨hn, trivial⟩

/-- The alternatives and the range are each one conjunct, the sub-query being in parentheses too. -/
theorem fourFilters_split_into_conjuncts : ∃ s j',
    Pipeline.compile ((Session.run largeOrders {}).scope 0) "users" fourFilters {} = .ok s j' ∧
    s.sql = fourFiltersText ∧
    ∃ plan k rowTexts groupTexts rows groups,
      Plan.run ((Session.run largeOrders {}).scope 0) "users" {} fourFilters {} = .ok plan k ∧
      List.Forall₂ (Filter.CompilesTo ((Session.run largeOrders {}).scope 0) "$match")
        (fourFilters.flatMap Stage.rowFilters) rowTexts ∧
      List.Forall₂ (Filter.CompilesTo ((Session.run largeOrders {}).scope 0) "$having")
        (fourFilters.flatMap Stage.groupFilters) groupTexts ∧
      Joins (rowTexts.filter (· ≠ Dialect.alwaysTrue)) rows ∧
      Joins (groupTexts.filter (· ≠ Dialect.alwaysTrue)) groups ∧
      plan.Shows "users" rows groups s.sql := by
  obtain ⟨-, hpipeline, hsession⟩ :=
    joined_conditions_split_into_conjuncts (Session.run largeOrders {}).toCatalogue 0
  have hjoinable : ∀ tree ∈
      fourFilters.flatMap Stage.rowFilters ++ fourFilters.flatMap Stage.groupFilters,
      (Session.run largeOrders {}).Joinable 0 tree := by
    intro tree htree
    refine hsession largeOrders 0 tree largeOrders_keep (fourFilters_names (by decide) tree htree)
      (fourFilters_names (by decide) tree htree) fun id operator _ => ?_
    rw [registry_largeOrders]
    rfl
  obtain ⟨hrows, hgroups⟩ := List.forall_mem_append.mp hjoinable
  obtain ⟨s, j', hs, hsql⟩ := compile_fourFilters
  exact ⟨s, j', hs, hsql, hpipeline "users" fourFilters {} s j' hrows hgroups hs⟩

end Catalogue

end BoundQuery
