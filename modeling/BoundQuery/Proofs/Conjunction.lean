import Mathlib
import BoundQuery.Proofs.Failure
import BoundQuery.Proofs.Restriction
import BoundQuery.Proofs.Steady

/-! What the filters of a builder come to in its statement. Without any, a SELECT has no condition,
and other statements are refused. Several of them are compiled one by one: the condition joins
those that restrict anything, and the values are those of all, in their order. -/
namespace BoundQuery

theorem Scope.Plain.offers {scope : Scope} (hs : scope.Plain) (hsteady : scope.Steady) :
    scope.Offers scope.vocabulary where
  free := fun name _ => hs name
  handler := by
    intro name write field operand s hwrite
    rw [hs.vocabulary name] at hwrite
    cases hwrite
  subquery := by
    rintro ref s ⟨j, j', hj⟩ k
    exact ((hsteady ref).returns_iff k).mp ⟨j, j', hj⟩

namespace Filter

open Compile

variable {scope : Scope}

/-- Wherever the filter is compiled, it gives the condition and appends the values. -/
def Translates (scope : Scope) (tree : Value) (text : String) (params : List Value) : Prop :=
  ∀ context, Yields (compile scope context tree) text params

/-- A filter that gives the same wherever it is compiled, and is never left unwritten. -/
def Regular (scope : Scope) (tree : Value) : Prop :=
  ∀ context d text d', compile scope context tree d = .ok text d' →
    text ≠ "" ∧ ∃ vs, d'.params = d.params ++ vs ∧ Translates scope tree text vs

theorem regular_of_plain (hs : scope.Plain) (hsteady : scope.Steady) (tree : Value) :
    Regular scope tree := by
  intro context d text d' h
  obtain ⟨vs, hvs, fs, hfs, rfl, rfl⟩ := (compile_spelled hs.appends.within).1 context tree d text d' h
  have hstanding := hfs.standing hs.vocabulary
  exact ⟨hstanding.ne_empty, fs.params, hvs,
    fun context => hfs.yields (hs.offers hsteady) hs.vocabulary.tidyHandlers context⟩

theorem Unplugged.regular (hsteady : scope.Steady) {tree : Value} (h : Unplugged scope tree) :
    Regular scope tree := by
  have hplain : scope.bare.Plain := fun _ => rfl
  have hregular := regular_of_plain hplain hsteady tree
  intro context d text d' hd
  rw [h.compile_bare] at hd
  obtain ⟨hne, vs, hvs, htranslates⟩ := hregular context d text d' hd
  refine ⟨hne, vs, hvs, fun context => ?_⟩
  rw [h.compile_bare]
  exact htranslates context

/-- A filter with the condition it is translated to, and the values for it. -/
structure Part where
  tree : Entries
  text : String
  params : List Value

def allOf (texts : List String) : String :=
  match texts.filter (· ≠ Dialect.alwaysTrue) with
  | [] => Dialect.alwaysTrue
  | kept => " AND ".intercalate (kept.map fun text => "(" ++ text ++ ")")

theorem combine_all (texts : List String) :
    Connective.all.combine (texts.filter (· ≠ Dialect.alwaysTrue)) = allOf texts := by
  unfold allOf
  cases texts.filter (· ≠ Dialect.alwaysTrue) <;> rfl

theorem allOf_ne_empty (texts : List String) : allOf texts ≠ "" := by
  unfold allOf
  generalize texts.filter (· ≠ Dialect.alwaysTrue) = kept
  match kept with
  | [] => decide
  | [text] => simp
  | text :: next :: rest => simp [String.intercalate_cons_cons]

/-- The filters of a group, one by one. -/
theorem childClauses_parts {trees : List Entries} (h : ∀ tree ∈ trees, Regular scope (.map tree))
    {context operator : String} {index : Nat} {d d' : Draft} {clauses : List String}
    (hd : childClauses scope context operator index (trees.map .map) d = .ok clauses d') :
    ∃ parts : List Part, parts.map Part.tree = trees ∧
      (∀ p ∈ parts, Translates scope (.map p.tree) p.text p.params) ∧
      clauses = (parts.map Part.text).filter (· ≠ Dialect.alwaysTrue) ∧
      d'.params = d.params ++ parts.flatMap Part.params := by
  induction trees generalizing index d clauses with
  | nil =>
    rw [List.map_nil, childClauses] at hd
    obtain ⟨rfl, rfl⟩ := pure_eq_ok_iff.mp hd
    exact ⟨[], rfl, nofun, rfl, (List.append_nil _).symm⟩
  | cons tree trees ih =>
    obtain ⟨htree, htrees⟩ := List.forall_mem_cons.mp h
    rw [List.map_cons, childClauses] at hd
    obtain ⟨text, d₁, hfirst, hd⟩ := bind_eq_ok_iff.mp hd
    obtain ⟨texts, d₂, hrest, hd⟩ := bind_eq_ok_iff.mp hd
    obtain ⟨rfl, rfl⟩ := pure_eq_ok_iff.mp hd
    obtain ⟨hne, vs, hvs, htranslates⟩ := htree _ _ _ _ hfirst
    obtain ⟨parts, rfl, hparts, rfl, hparams⟩ := ih htrees hrest
    refine ⟨⟨tree, text, vs⟩ :: parts, rfl, List.forall_mem_cons.mpr ⟨htranslates, hparts⟩, ?_, ?_⟩
    · by_cases htext : text = Dialect.alwaysTrue
      · simp [htext]
      · simp [htext, hne]
    · rw [hparams, hvs, List.append_assoc, List.flatMap_cons]

/-- The only entry of a filter is its condition, if it is written. -/
theorem condition_single {context text result : String} {d d' : Draft}
    (h : condition context [.str text] d = .ok result d') : result = text ∧ d'.params = d.params := by
  have hrow : conjunction [[.text text]] = [.text text] := rfl
  have hsql : Fragments.sql [.text text] = text := by simp [Fragment.sql]
  obtain ⟨j, hj⟩ := condition_yields context [[.text text]] d
  rw [hrow, List.map_singleton, hsql, h] at hj
  obtain ⟨rfl, rfl⟩ := hj
  exact ⟨rfl, List.append_nil _⟩

/-- A group of filters that all have to hold: each is compiled on its own. -/
theorem entryClause_all {trees : List Entries} (h : ∀ tree ∈ trees, Regular scope (.map tree))
    {context : String} {clause : Value} {d d' : Draft}
    (hd : entryClause scope context (.str "$and") (.list (trees.map .map)) d = .ok clause d') :
    ∃ parts : List Part, parts.map Part.tree = trees ∧
      (∀ p ∈ parts, Translates scope (.map p.tree) p.text p.params) ∧
      clause = .str (allOf (parts.map Part.text)) ∧
      d'.params = d.params ++ parts.flatMap Part.params := by
  have hmark : (Value.str "$and").operator? = some "$and" := by decide
  rw [entryClause.eq_def] at hd
  simp only [hmark] at hd
  obtain ⟨c, d₁, hconnective, hd⟩ := bind_eq_ok_iff.mp hd
  obtain ⟨hc, rfl⟩ := liftExcept_eq_ok_iff.mp hconnective
  obtain rfl := Except.ok.inj hc
  obtain ⟨_, d₂, hcheck, hd⟩ := bind_eq_ok_iff.mp hd
  obtain ⟨-, rfl⟩ := liftExcept_eq_ok_iff.mp hcheck
  obtain ⟨clauses, d₃, hchildren, hd⟩ := bind_eq_ok_iff.mp hd
  obtain ⟨rfl, rfl⟩ := pure_eq_ok_iff.mp hd
  obtain ⟨parts, htrees, hparts, rfl, hparams⟩ := childClauses_parts h hchildren
  exact ⟨parts, htrees, hparts, by rw [combine_all], hparams⟩

theorem compile_several {trees : List Entries} (h : ∀ tree ∈ trees, Regular scope (.map tree))
    {context text : String} {d d' : Draft}
    (hd : compile scope context (Accumulated.several trees).toTree d = .ok text d') :
    ∃ parts : List Part, parts.map Part.tree = trees ∧
      (∀ p ∈ parts, Translates scope (.map p.tree) p.text p.params) ∧
      text = allOf (parts.map Part.text) ∧ d'.params = d.params ++ parts.flatMap Part.params := by
  rw [Accumulated.toTree, compile] at hd
  obtain ⟨clauses, d₁, hentries, hcondition⟩ := bind_eq_ok_iff.mp hd
  rw [entryClauses, entryClauses] at hentries
  obtain ⟨clause, d₂, hentry, hentries⟩ := bind_eq_ok_iff.mp hentries
  obtain ⟨parts, htrees, hparts, rfl, hparams⟩ := entryClause_all h hentry
  have htruthy : (Value.str (allOf (parts.map Part.text))).truthy = true := by
    simp [Value.truthy, allOf_ne_empty]
  obtain ⟨rest, d₃, hrest, hentries⟩ := bind_eq_ok_iff.mp hentries
  obtain ⟨rfl, rfl⟩ := pure_eq_ok_iff.mp hrest
  obtain ⟨rfl, rfl⟩ := pure_eq_ok_iff.mp hentries
  rw [if_pos htruthy] at hcondition
  obtain ⟨htext, hsame⟩ := condition_single hcondition
  exact ⟨parts, htrees, hparts, htext, hsame.trans hparams⟩

end Filter

theorem Accumulated.toTree_ofTrees_eq_nil_iff {trees : List Entries} (h : ∀ tree ∈ trees, tree ≠ []) :
    (ofTrees trees).toTree = .map [] ↔ trees = [] := by
  match trees with
  | [] => simp [ofTrees, toTree]
  | [tree] => simpa [ofTrees, toTree] using h
  | _ :: _ :: _ => simp [ofTrees, toTree]

namespace Builder

variable {b : Builder} {scope : Scope}

def bound (b : Builder) : List Value := (b.frame?.map Frame.bound).getD []

/-- The text of the builder's statement with the condition, or without one. -/
def Shows : Builder → Option String → String → Prop
  | select s, condition, sql => ∃ columns j j',
      Projection.clause s.table s.joins s.projection j = .ok columns j' ∧
      sql = " ".intercalate (["SELECT " ++ columns, "FROM " ++ s.table] ++ s.joins.map Join.clause
        ++ (condition.map ("WHERE " ++ ·)).toList
        ++ Plan.clause "ORDER BY" ((s.order.map Order.clause).getD "")
        ++ Plan.paging s.limit s.offset)
  | b, some condition, sql => ∃ frame, b.frame? = some frame ∧
      sql = frame.opening ++ condition ++ frame.closing
  | _, none, _ => False

/-- The condition of a statement, where there is a filter. -/
theorem compile_shows (hb : b.Filtered) (hform : b.ByFilter)
    (hne : b.accumulated.isEmpty = false) {st : Statement} {j j' : Journal}
    (h : b.compile scope j = .ok st j') : ∃ clause k d,
      Filter.compile scope b.kind.name b.accumulated.toTree ⟨b.bound, k⟩ = .ok clause d ∧
      b.Shows (some clause) st.sql ∧ st.params = d.params := by
  by_cases hguarded : b.Guarded
  · obtain ⟨frame, clause, params, k, hframe, hk, rfl, -⟩ := (compile_framed hguarded hform hne).mp h
    obtain ⟨d, hd, rfl⟩ := Compile.collect_run hk
    refine ⟨clause, j, d, ?_, ?_, rfl⟩
    · rw [bound, hframe]
      exact hd
    · cases b with
      | select s => simp [Guarded, kind] at hguarded
      | _ => exact ⟨frame, hframe, rfl⟩
  · cases b with
    | select s =>
      obtain ⟨columns, condition, params, k, l, hcolumns, hcondition, rfl⟩ :=
        Select.compile_eq_ok h
      rcases Select.condition_eq_ok hcondition with ⟨he, -⟩ | ⟨-, clause, rfl, hclause⟩
      · cases he.symm.trans hne
      · obtain ⟨d, hd, rfl⟩ := Compile.collect_run hclause
        exact ⟨clause, k, d, hd, ⟨columns, j, k, hcolumns, rfl⟩, rfl⟩
    | _ => simp [Filtered, Guarded, kind] at hb hguarded

/-- A text that is joined with others is longer for one more of them. -/
theorem length_intercalate_cons (separator first : String) (rest : List String) :
    (separator.intercalate (first :: rest)).length =
      first.length + (rest.map fun s => separator.length + s.length).sum := by
  induction rest generalizing first with
  | nil => simp
  | cons second rest ih =>
    rw [String.intercalate_cons_cons, String.length_append, String.length_append, ih,
      List.map_cons, List.sum_cons]
    omega

/-- No text of a SELECT is both one with a condition and one without. -/
theorem not_shows_none {s : Select} {clause sql : String} (h : (select s).Shows (some clause) sql) :
    ¬(select s).Shows none sql := by
  rintro ⟨columns', k, k', hcolumns', hsql'⟩
  obtain ⟨columns, j, j', hcolumns, rfl⟩ := h
  obtain rfl := (Projection.clause_steady s.table s.joins s.projection).result_unique hcolumns hcolumns'
  have hlength := congrArg String.length hsql'
  simp [length_intercalate_cons] at hlength

section Restricted

variable {trees : List Entries} (htrees : b.accumulated = .ofTrees trees)

include htrees

/-- A SELECT has no condition exactly if there is no filter. -/
theorem select_shows_none_iff (hselect : b.kind = .select) {st : Statement} {j j' : Journal}
    (h : b.compile scope j = .ok st j') : b.Shows none st.sql ↔ trees = [] := by
  cases b with
  | select s =>
    constructor
    · intro hnone
      by_contra hne
      have hform : (select s).ByFilter := trivial
      obtain ⟨clause, k, d, -, hshows, -⟩ :=
        compile_shows (.inl rfl) hform (accumulated_nonempty htrees hne) h
      exact not_shows_none hshows hnone
    · intro hnil
      have he : s.filter.isEmpty = true := (isEmpty_accumulated htrees).mpr hnil
      obtain ⟨columns, condition, params, k, l, hcolumns, hcondition, rfl⟩ :=
        Select.compile_eq_ok h
      rcases Select.condition_eq_ok hcondition with ⟨-, rfl, rfl⟩ | ⟨hne, -⟩
      · exact ⟨columns, j, k, hcolumns, rfl⟩
      · exact absurd (he.symm.trans hne) nofun
  | _ => cases hselect

/-- A violation of safety is that of the guard without a filter, and passed on with one. -/
theorem safety_iff (hb : b.Guarded) {e : Error} (he : e.IsSafety) {j j' : Journal} :
    b.compile scope j = .error e j' ↔
      (trees = [] ∧ e = missingFilter b.kind b.table ∧ j' = j) ∨
        (trees ≠ [] ∧ scope.PassesOn (fun scope => b.compile scope) j e j') := by
  by_cases hnil : trees = []
  · rw [compile_unfiltered hb ((isEmpty_accumulated htrees).mpr hnil) j]
    simp [hnil, eq_comm]
  · have hnonempty := accumulated_nonempty htrees hnil
    have hreplaces : ∀ f, Replaces f (b.compile scope) (b.compile (scope.withErrors f)) := by
      intro f
      cases b with
      | delete d => exact Delete.compile_replaces hnonempty
      | update u => exact Update.compile_replaces hnonempty
      | _ => simp [Guarded, kind] at hb
    constructor
    · intro h
      refine .inr ⟨hnil, fun f => ?_⟩
      have hreplaced := hreplaces f j
      rw [h] at hreplaced
      exact hreplaced.error_of_safety he
    · rintro (⟨habsurd, -⟩ | ⟨-, hpasses⟩)
      · exact absurd habsurd hnil
      · simpa only [Scope.withErrors_id, id] using hpasses id

/-- Several filters are translated each on its own. -/
theorem compile_parts (hb : b.Filtered) (hform : b.ByFilter) (hseveral : 2 ≤ trees.length)
    (hregular : ∀ tree ∈ trees, Filter.Regular scope (.map tree)) {st : Statement} {j j' : Journal}
    (h : b.compile scope j = .ok st j') :
    ∃ parts : List Filter.Part, parts.map Filter.Part.tree = trees ∧
      (∀ p ∈ parts, Filter.Translates scope (.map p.tree) p.text p.params) ∧
      b.Shows (some (Filter.allOf (parts.map Filter.Part.text))) st.sql ∧
      st.params = b.bound ++ parts.flatMap Filter.Part.params := by
  have hne : trees ≠ [] := by
    rintro rfl
    exact absurd hseveral (by decide)
  obtain ⟨clause, k, d, hd, hshows, hparams⟩ :=
    compile_shows hb hform (accumulated_nonempty htrees hne) h
  rw [htrees, Accumulated.ofTrees_several hseveral] at hd
  obtain ⟨parts, htree, hparts, rfl, hbound⟩ := Filter.compile_several hregular hd
  exact ⟨parts, htree, hparts, hshows, hparams.trans hbound⟩

end Restricted

/-- Calls on a new SELECT, UPDATE or DELETE builder, with any others among those that give filters.
The filter is empty if no filter but empty ones was given, the only one given, or a conjunction of
them. So a SELECT has no condition exactly if there was none, and the others are refused exactly
then; with a filter, a violation of safety is one that a handler or a sub-query raised. Several
filters without handlers are translated each on its own. -/
theorem filters_add_up {kind : StatementKind}
    (hkind : kind = .select ∨ kind = .update ∨ kind = .delete) {table idField pipeline : Value}
    {registry : RegistryId} (hstart : start kind table registry idField pipeline = .ok b)
    (calls : List Call) (c : Catalogue) (id : RegistryId) :
    ((run calls b).filter? = some (.map []) ↔ restrictions kind calls = []) ∧
    (∀ tree, restrictions kind calls = [tree] → (run calls b).filter? = some (.map tree)) ∧
    (2 ≤ (restrictions kind calls).length → (run calls b).filter? =
      some (.map [(.str "$and", .list ((restrictions kind calls).map .map))])) ∧
    (kind = .select → ∀ j st j', (run calls b).compile (c.scope id) j = .ok st j' →
      ((run calls b).Shows none st.sql ↔ restrictions kind calls = [])) ∧
    (kind ≠ .select → ∀ e j j', e.IsSafety →
      ((run calls b).compile (c.scope id) j = .error e j' ↔
        (restrictions kind calls = [] ∧ e = missingFilter kind b.table ∧ j' = j) ∨
          (restrictions kind calls ≠ [] ∧
            (c.scope id).PassesOn (fun scope => (run calls b).compile scope) j e j'))) ∧
    (2 ≤ (restrictions kind calls).length →
      (∀ tree ∈ restrictions kind calls, Filter.Unplugged (c.scope id) (.map tree)) →
      (run calls b).ByFilter → ∀ j st j', (run calls b).compile (c.scope id) j = .ok st j' →
      ∃ parts : List Filter.Part, parts.map Filter.Part.tree = restrictions kind calls ∧
        (∀ p ∈ parts, Filter.Translates (c.scope id) (.map p.tree) p.text p.params) ∧
        (run calls b).Shows (some (Filter.allOf (parts.map Filter.Part.text))) st.sql ∧
        st.params = (run calls b).bound ++ parts.flatMap Filter.Part.params) := by
  obtain ⟨hkinds, htable, hfilter⟩ := run_accumulated hkind hstart calls
  have hfiltered : (run calls b).Filtered := by rwa [Filtered, hkinds]
  rw [filter?_filtered hfiltered, hfilter, Option.some_inj]
  refine ⟨Accumulated.toTree_ofTrees_eq_nil_iff restrictions_ne_nil, ?_, ?_, ?_, ?_, ?_⟩
  · intro tree hsingle
    rw [hsingle]
    rfl
  · intro hseveral
    rw [Accumulated.ofTrees_several hseveral]
    rfl
  · intro hselect j st j' h
    exact select_shows_none_iff hfilter (hkinds.trans hselect) h
  · intro hselect e j j' he
    have hguarded : (run calls b).Guarded := by
      rw [Guarded, hkinds]
      tauto
    rw [safety_iff hfilter hguarded he, hkinds, htable]
  · intro hseveral hunplugged hform j st j' h
    have hregular : ∀ tree ∈ restrictions kind calls, Filter.Regular (c.scope id) (.map tree) :=
      fun tree htree => (hunplugged tree htree).regular (c.scope_steady id)
    exact compile_parts hfilter hfiltered hform hseveral hregular h

/-- Of these calls one is refused and one gives an empty filter; one of the others restricts
nothing. -/
def scatteredCalls : List Call :=
  [.delete (.query (.map [(.str "$and", .list [.map [(.str "a", .int 1)]])])),
    .delete (.query (.int 5)), .delete (.query (.map [])), .delete .single,
    .delete (.query (.map [(.str "$nor", .list [])])),
    .delete (.query (.map [(.str "b", .map [(.str "$gt", .int 2)])]))]

def unfiltered : Catalogue where
  sources := [.builder (.delete { table := "t" })]
  targets := [.source 0]

def nestedCall : Call := .delete (.query (.map [(.str "id", .subquery ⟨0, "SubQuery(DELETE)"⟩)]))

/-- A DELETE with a filter is refused for want of one, if that is the error of its sub-query. -/
theorem nestedCall_refused :
    restrictions .delete [nestedCall] ≠ [] ∧
    ∀ j, (run [nestedCall] (.delete { table := "t" })).compile (unfiltered.scope 0) j =
      .error (missingFilter .delete "t") j :=
  ⟨nofun, fun _ => rfl⟩

/-- The first filter is itself a conjunction; it is joined with the last one. Where the error is
that of the sub-query, it is passed on. -/
theorem scatteredCalls_delete : (∃ j',
    (run scatteredCalls (.delete { table := "t" })).compile (({} : Catalogue).scope 0) {} =
      .ok ⟨"DELETE FROM t WHERE ((a = ?)) AND (b > ?) LIMIT 1", [.int 1, .int 2]⟩ j' ∧
    ∃ parts : List Filter.Part, parts.map Filter.Part.tree = restrictions .delete scatteredCalls ∧
      (∀ p ∈ parts, Filter.Translates (({} : Catalogue).scope 0) (.map p.tree) p.text p.params) ∧
      "DELETE FROM t WHERE ((a = ?)) AND (b > ?) LIMIT 1" =
        "DELETE FROM t WHERE " ++ Filter.allOf (parts.map Filter.Part.text) ++ " LIMIT 1" ∧
      [.int 1, .int 2] = parts.flatMap Filter.Part.params) ∧
    (unfiltered.scope 0).PassesOn
      (fun scope => (run [nestedCall] (.delete { table := "t" })).compile scope) {}
      (missingFilter .delete "t") {} := by
  have hresult : ∃ j',
      (run scatteredCalls (.delete { table := "t" })).compile (({} : Catalogue).scope 0) {} =
        .ok ⟨"DELETE FROM t WHERE ((a = ?)) AND (b > ?) LIMIT 1", [.int 1, .int 2]⟩ j' := by
    refine ⟨?_, ?_⟩
    rotate_left
    · cbv
      rfl
  obtain ⟨j', hj⟩ := hresult
  have hstart : start .delete (.str "t") 0 .null .null = .ok (.delete { table := "t" }) := rfl
  obtain ⟨-, -, -, -, -, hseveral⟩ :=
    filters_add_up (.inr (.inr rfl)) hstart scatteredCalls ({} : Catalogue) 0
  obtain ⟨-, -, -, -, hrefused, -⟩ :=
    filters_add_up (.inr (.inr rfl)) hstart [nestedCall] unfiltered 0
  have hunplugged : ∀ tree ∈ restrictions .delete scatteredCalls,
      Filter.Unplugged (({} : Catalogue).scope 0) (.map tree) := fun _ _ _ _ => rfl
  obtain ⟨parts, htrees, hparts, ⟨frame, hframe, hsql⟩, hparams⟩ :=
    hseveral (by decide) hunplugged trivial {} _ j' hj
  obtain rfl := Option.some.inj hframe
  refine ⟨⟨j', hj, parts, htrees, hparts, hsql, hparams⟩, ?_⟩
  have hcompile : (run [nestedCall] (.delete { table := "t" })).compile (unfiltered.scope 0) {} =
      .error (missingFilter .delete "t") {} := rfl
  have hsome : restrictions .delete [nestedCall] ≠ [] := List.cons_ne_nil _ _
  obtain ⟨hnone, -⟩ | ⟨-, hpasses⟩ :=
    (hrefused (by decide) (missingFilter .delete "t") {} {} trivial).mp hcompile
  · exact absurd hnone hsome
  · exact hpasses

end Builder

end BoundQuery
