import Mathlib
import BoundQuery.Proofs.Compiled
import BoundQuery.Proofs.Rows
import BoundQuery.Proofs.Steady

/-! Pipelines with their stages in another order. A stage reads and changes one part of the plan
only, so that a row of stages comes to what the stages of each part come to on their own. -/
namespace BoundQuery

/-- The parts of a plan, named for what the stages on them give. -/
inductive Track where
  | conditions
  | having
  | columns
  | order
  | limit
  | offset
  | joins
  | comments
deriving DecidableEq

namespace Track

/-- What a part holds: conditions come with the values bound for them, and columns with whether and
by what they are grouped. -/
def Part : Track → Type
  | conditions => List String × List Value
  | having => List String × List Value
  | columns => String × Bool × String
  | order => String
  | limit => Option Nat
  | offset => Option Nat
  | joins => List String
  | comments => List String

def overridden : Track → Bool
  | order => true
  | limit => true
  | offset => true
  | _ => false

end Track

/-- The part that a stage works on; grouping and projecting are about the same one. -/
def Stage.track : Stage → Track
  | .filter _ => .conditions
  | .group _ => .columns
  | .project _ => .columns
  | .sort _ => .order
  | .limit _ => .limit
  | .skip _ => .offset
  | .lookup _ => .joins
  | .unwind _ => .comments
  | .having _ => .having

def Track.stages (t : Track) (stages : List Stage) : List Stage := Rows.ofKind Stage.track t stages

namespace Plan

def part (plan : Plan) : (t : Track) → t.Part
  | .conditions => (plan.conditions, plan.params)
  | .having => (plan.having, plan.havingParams)
  | .columns => (plan.select, plan.grouped, plan.groupBy)
  | .order => plan.order
  | .limit => plan.limit
  | .offset => plan.offset
  | .joins => plan.joins
  | .comments => plan.comments

def put (plan : Plan) : (t : Track) → t.Part → Plan
  | .conditions, (conditions, params) => { plan with conditions, params }
  | .having, (having, havingParams) => { plan with having, havingParams }
  | .columns, (select, grouped, groupBy) => { plan with select, grouped, groupBy }
  | .order, order => { plan with order }
  | .limit, limit => { plan with limit }
  | .offset, offset => { plan with offset }
  | .joins, joins => { plan with joins }
  | .comments, comments => { plan with comments }

@[simp] theorem part_put_self (plan : Plan) (t : Track) (x : t.Part) : (plan.put t x).part t = x := by
  cases t <;> rfl

theorem part_put_of_ne (plan : Plan) {t u : Track} (h : t ≠ u) (x : t.Part) :
    (plan.put t x).part u = plan.part u := by
  cases t <;> cases u <;> first | rfl | exact absurd rfl h

/-- A plan is nothing but its parts. -/
theorem eq_of_part_eq {plan other : Plan} (h : ∀ t, plan.part t = other.part t) : plan = other := by
  obtain ⟨hconditions, hparams⟩ := Prod.mk.inj (h .conditions)
  obtain ⟨hhaving, hhavingParams⟩ := Prod.mk.inj (h .having)
  obtain ⟨hselect, hgroup⟩ := Prod.mk.inj (h .columns)
  obtain ⟨hgrouped, hgroupBy⟩ := Prod.mk.inj hgroup
  have horder : plan.order = other.order := h .order
  have hlimit : plan.limit = other.limit := h .limit
  have hoffset : plan.offset = other.offset := h .offset
  have hjoins : plan.joins = other.joins := h .joins
  have hcomments : plan.comments = other.comments := h .comments
  cases plan
  cases other
  simp_all

variable {scope : Scope} {table : String} {plan plan' other : Plan} {s : Stage}

/-- A stage makes the same of its part in every plan that has this part, and leaves the others. -/
theorem step_eq_of_part_eq (h : plan.part s.track = other.part s.track) :
    other.step scope table s =
      (fun result => other.put s.track (result.part s.track)) <$> plan.step scope table s := by
  cases s with
  | filter tree =>
    obtain ⟨hconditions, hparams⟩ := Prod.mk.inj h
    simp [step, put, part, Stage.track, hconditions, hparams]
  | having tree =>
    obtain ⟨hhaving, hparams⟩ := Prod.mk.inj h
    simp [step, put, part, Stage.track, hhaving, hparams]
  | project columns =>
    obtain ⟨hselect, hgroup⟩ := Prod.mk.inj h
    obtain ⟨hgrouped, hgroupBy⟩ := Prod.mk.inj hgroup
    simp only [step]
    split <;> simp [put, part, Stage.track, hselect, hgrouped, hgroupBy]
  | lookup l =>
    have hjoins : plan.joins = other.joins := h
    simp [step, put, part, Stage.track, hjoins]
  | unwind path =>
    have hcomments : plan.comments = other.comments := h
    simp [step, put, part, Stage.track, hcomments]
  | _ => simp [step, put, part, Stage.track]

theorem part_of_step (h : (plan.step scope table s).Returns plan') {t : Track} (ht : s.track ≠ t) :
    plan'.part t = plan.part t := by
  rw [step_eq_of_part_eq rfl, Work.returns_map_iff] at h
  obtain ⟨result, -, rfl⟩ := h
  exact part_put_of_ne plan ht _

theorem step_of_part_eq (h : (plan.step scope table s).Returns plan')
    (hpart : plan.part s.track = other.part s.track) :
    ∃ other', (other.step scope table s).Returns other' ∧
      plan'.part s.track = other'.part s.track := by
  refine ⟨other.put s.track (plan'.part s.track), ?_, by simp⟩
  rw [step_eq_of_part_eq hpart, Work.returns_map_iff]
  exact ⟨plan', h, rfl⟩

theorem run_cons_returns_iff (hs : scope.Steady) {rest : List Stage} :
    (plan.run scope table (s :: rest)).Returns plan' ↔
      ∃ next, (plan.step scope table s).Returns next ∧
        (next.run scope table rest).Returns plan' :=
  Work.returns_bind_iff fun next => next.run_steady hs table rest

theorem run_nil_returns_iff : (plan.run scope table []).Returns plan' ↔ plan = plan' :=
  Work.returns_pure_iff

/-- Stages on one part make the same of it in every plan that has this part. -/
theorem run_of_part_eq (hs : scope.Steady) {t : Track} {stages : List Stage}
    (hstages : ∀ s ∈ stages, s.track = t) (h : (plan.run scope table stages).Returns plan')
    (hpart : plan.part t = other.part t) :
    ∃ other', (other.run scope table stages).Returns other' ∧ plan'.part t = other'.part t := by
  induction stages generalizing plan other with
  | nil =>
    obtain rfl := run_nil_returns_iff.mp h
    exact ⟨other, run_nil_returns_iff.mpr rfl, hpart⟩
  | cons s rest ih =>
    obtain ⟨rfl, hrest⟩ := List.forall_mem_cons.mp hstages
    obtain ⟨next, hstep, hrun⟩ := (run_cons_returns_iff hs).mp h
    obtain ⟨next', hstep', hnext⟩ := step_of_part_eq hstep hpart
    obtain ⟨other', hrun', hparts⟩ := ih hrest hrun hnext
    exact ⟨other', (run_cons_returns_iff hs).mpr ⟨next', hstep', hrun'⟩, hparts⟩

/-- What a row of stages makes of one part. -/
def Leads (scope : Scope) (table : String) (plan : Plan) (stages : List Stage) (t : Track)
    (x : t.Part) : Prop :=
  ∃ plan', (plan.run scope table stages).Returns plan' ∧ plan'.part t = x

theorem leads_of_part_eq (hs : scope.Steady) {t : Track} {stages : List Stage} {x : t.Part}
    (h : plan.Leads scope table (t.stages stages) t x) (hpart : plan.part t = other.part t) :
    other.Leads scope table (t.stages stages) t x := by
  obtain ⟨alone, hrun, rfl⟩ := h
  obtain ⟨alone', hrun', hparts⟩ := run_of_part_eq hs Rows.forall_mem_ofKind hrun hpart
  exact ⟨alone', hrun', hparts.symm⟩

/-- A row of stages succeeds if the stages on each part do so alone, and comes to what they come
to. -/
theorem run_returns_iff_leads (hs : scope.Steady) {stages : List Stage} :
    (plan.run scope table stages).Returns plan' ↔
      ∀ t, plan.Leads scope table (t.stages stages) t (plan'.part t) := by
  induction stages generalizing plan with
  | nil =>
    constructor
    · intro h t
      obtain rfl := run_nil_returns_iff.mp h
      exact ⟨plan, h, rfl⟩
    · intro h
      refine run_nil_returns_iff.mpr (eq_of_part_eq fun t => ?_)
      obtain ⟨alone, halone, hpart⟩ := h t
      obtain rfl := run_nil_returns_iff.mp halone
      exact hpart
  | cons s rest ih =>
    rw [run_cons_returns_iff hs]
    constructor
    · rintro ⟨next, hstep, hrun⟩ t
      have hnext := ih.mp hrun t
      by_cases ht : s.track = t
      · subst ht
        obtain ⟨alone, halone, hpart⟩ := hnext
        refine ⟨alone, ?_, hpart⟩
        rw [Track.stages, Rows.ofKind_cons_self]
        exact (run_cons_returns_iff hs).mpr ⟨next, hstep, halone⟩
      · rw [Track.stages, Rows.ofKind_cons_of_ne ht]
        exact leads_of_part_eq hs hnext (part_of_step hstep ht)
    · intro h
      obtain ⟨alone, halone, hpart⟩ := h s.track
      rw [Track.stages, Rows.ofKind_cons_self] at halone
      obtain ⟨next, hstep, hrun⟩ := (run_cons_returns_iff hs).mp halone
      refine ⟨next, hstep, ih.mpr fun t => ?_⟩
      by_cases ht : s.track = t
      · subst ht
        exact ⟨alone, hrun, hpart⟩
      · have hplan := h t
        rw [Track.stages, Rows.ofKind_cons_of_ne ht] at hplan
        exact leads_of_part_eq hs hplan (part_of_step hstep ht).symm

theorem step_overridden (scope : Scope) (table : String) (h : s.track.overridden = true) :
    ∃ x, ∀ plan : Plan, plan.step scope table s = pure (plan.put s.track x) := by
  cases s with
  | sort order => exact ⟨order.clause, fun _ => rfl⟩
  | limit n => exact ⟨some n, fun _ => rfl⟩
  | skip n => exact ⟨some n, fun _ => rfl⟩
  | _ => cases h

theorem leads_singleton (hs : scope.Steady) {t : Track} (ht : t.overridden = true)
    (hstage : s.track = t) {x : t.Part} :
    plan.Leads scope table [s] t x ↔ other.Leads scope table [s] t x := by
  subst hstage
  obtain ⟨y, hy⟩ := step_overridden scope table ht
  have hlast : ∀ plan : Plan, plan.Leads scope table [s] s.track x ↔ y = x := by
    intro plan
    simp [Leads, run_cons_returns_iff hs, hy, Work.returns_pure_iff, run_nil_returns_iff]
  rw [hlast plan, hlast other]

/-- Where stages are overridden, the last one makes of the part what they all do. -/
theorem leads_getLast_iff (hs : scope.Steady) {t : Track} (ht : t.overridden = true)
    {stages : List Stage} (hstages : ∀ s ∈ stages, s.track = t) {x : t.Part} :
    plan.Leads scope table stages.getLast?.toList t x ↔ plan.Leads scope table stages t x := by
  induction stages generalizing plan with
  | nil => rfl
  | cons s rest ih =>
    obtain ⟨rfl, hrest⟩ := List.forall_mem_cons.mp hstages
    obtain ⟨y, hy⟩ := step_overridden scope table ht
    have hstep : plan.Leads scope table (s :: rest) s.track x ↔
        (plan.put s.track y).Leads scope table rest s.track x := by
      simp only [Leads, run_cons_returns_iff hs, hy, Work.returns_pure_iff, exists_eq_left']
    cases hlast : rest.getLast? with
    | none =>
      obtain rfl := List.getLast?_eq_none_iff.mp hlast
      rfl
    | some last =>
      have htrack := hrest last (List.mem_of_getLast? hlast)
      rw [hstep, ← ih hrest, List.getLast?_cons, hlast]
      exact leads_singleton hs ht htrack

end Plan

def Pipeline.latest (stages : List Stage) : List Stage :=
  Rows.latest Stage.track Track.overridden stages

namespace Pipeline

variable {scope : Scope} {table : String}

theorem compile_returns_iff {stages : List Stage} {s : Statement} :
    (compile scope table stages).Returns s ↔
      ∃ plan, (Plan.run scope table {} stages).Returns plan ∧ plan.statement table = s := by
  unfold compile
  rw [Work.returns_bind_iff fun plan => .noted _ _]
  simp only [Work.returns_noted_iff]

/-- Pipelines whose stages make the same of each part compile alike. -/
theorem compile_returns_of_leads (hs : scope.Steady) {p q : List Stage}
    (h : ∀ (t : Track) (x : t.Part), Plan.Leads scope table {} (t.stages p) t x ↔
      Plan.Leads scope table {} (t.stages q) t x) (s : Statement) :
    (compile scope table p).Returns s ↔ (compile scope table q).Returns s := by
  simp only [compile_returns_iff, Plan.run_returns_iff_leads hs, h]

theorem compile_latest_returns (hs : scope.Steady) (p : List Stage) (s : Statement) :
    (compile scope table (latest p)).Returns s ↔ (compile scope table p).Returns s := by
  refine compile_returns_of_leads hs (fun t x => ?_) s
  cases ht : t.overridden with
  | false => rw [Track.stages, latest, Rows.ofKind_latest_of_kept ht, Track.stages]
  | true =>
    rw [Track.stages, latest, Rows.ofKind_latest_of_overridden ht, Track.stages]
    exact Plan.leads_getLast_iff hs ht Rows.forall_mem_ofKind

/-- Only the order of the stages on each part counts for what a pipeline compiles to, and whether
it does; and of the stages that order and page the rows only the last ones count. Handlers may
even look at the values bound before. -/
theorem reordered_stages_compile_alike (c : Catalogue) (registry : RegistryId) (table : String) :
    (∀ p q : List Stage, (∀ t : Track, t.stages p = t.stages q) → ∀ j k s,
      (∃ j', compile (c.scope registry) table p j = .ok s j') ↔
        ∃ k', compile (c.scope registry) table q k = .ok s k') ∧
    ∀ (p : List Stage) j k s,
      (∃ j', compile (c.scope registry) table (latest p) j = .ok s j') ↔
        ∃ k', compile (c.scope registry) table p k = .ok s k' := by
  have hs := c.scope_steady registry
  have hreturns : ∀ (p : List Stage) j s, (∃ j', compile (c.scope registry) table p j = .ok s j') ↔
      (compile (c.scope registry) table p).Returns s := fun p j s =>
    ((compile_steady hs table p).returns_iff j).symm
  refine ⟨fun p q h j k s => ?_, fun p j k s => ?_⟩
  · rw [hreturns p j, hreturns q k]
    exact compile_returns_of_leads hs (fun t x => by rw [h t]) s
  · rw [hreturns _ j, hreturns p k]
    exact compile_latest_returns hs p s

/-- The filter after grouping comes first here, and there are two limits. -/
def havingFirst : List Stage :=
  [.having [("n", .map [(.str "$gt", .int 5)])], .limit 9, .group [("_id", .str "$dept")],
    .filter [("a", .int 1)], .project (.columns [.str "b"]), .limit 3, .filter [("c", .int 2)]]

def filtersFirst : List Stage :=
  [.filter [("a", .int 1)], .filter [("c", .int 2)], .group [("_id", .str "$dept")],
    .project (.columns [.str "b"]), .limit 9, .limit 3, .having [("n", .map [(.str "$gt", .int 5)])]]

/-- The values of the filters before grouping come first, wherever the other filter stands. -/
theorem havingFirst_compiles_like_filtersFirst :
    (∀ t : Track, t.stages havingFirst = t.stages filtersFirst) ∧
    ∀ stages ∈ [filtersFirst, havingFirst, latest havingFirst], ∃ j,
      compile (({} : Catalogue).scope 0) "t" stages {} = .ok ⟨"SELECT b, dept AS _id FROM t " ++
        "WHERE a = ? AND c = ? GROUP BY dept HAVING n > ? LIMIT 3", [.int 1, .int 2, .int 5]⟩ j := by
  have hsame : ∀ t : Track, t.stages havingFirst = t.stages filtersFirst := by
    intro t
    cases t <;> rfl
  have hfirst : ∃ j, compile (({} : Catalogue).scope 0) "t" filtersFirst {} =
      .ok ⟨"SELECT b, dept AS _id FROM t " ++
        "WHERE a = ? AND c = ? GROUP BY dept HAVING n > ? LIMIT 3", [.int 1, .int 2, .int 5]⟩ j := by
    refine ⟨?_, ?_⟩
    rotate_left
    · cbv
      rfl
  obtain ⟨hreordered, hlatest⟩ := reordered_stages_compile_alike {} 0 "t"
  have hsecond := (hreordered _ _ hsame {} {} _).mpr hfirst
  have hthird := (hlatest havingFirst {} {} _).mpr hsecond
  refine ⟨hsame, fun stages hstages => ?_⟩
  simp only [List.mem_cons, List.not_mem_nil, or_false] at hstages
  obtain rfl | rfl | rfl := hstages
  · exact hfirst
  · exact hsecond
  · exact hthird

end Pipeline

end BoundQuery
