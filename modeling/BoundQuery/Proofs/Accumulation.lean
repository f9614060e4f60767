import BoundQuery.Proofs.Compiled
import BoundQuery.Proofs.Run

/-! Filters add up over the calls on a builder. What counts is the list of those that are maps and
not empty; a call that is refused leaves the filters as they were. -/
namespace BoundQuery

namespace Accumulated

/-- The filters of a list that holds no empty one. -/
def ofTrees : List Entries → Accumulated
  | [] => empty
  | [tree] => single tree
  | trees => several trees

theorem ofTrees_add {tree : Entries} (h : tree ≠ []) (trees : List Entries) :
    (ofTrees trees).add tree = ofTrees (trees ++ [tree]) := by
  obtain ⟨e, es, rfl⟩ := List.exists_cons_of_ne_nil h
  match trees with
  | [] => rfl
  | [_] => rfl
  | _ :: _ :: _ => rfl

theorem foldl_add_ofTrees {more : List Entries} (h : ∀ tree ∈ more, tree ≠ [])
    (trees : List Entries) : more.foldl add (ofTrees trees) = ofTrees (trees ++ more) := by
  induction more generalizing trees with
  | nil => simp
  | cons tree more ih =>
    obtain ⟨htree, hmore⟩ := List.forall_mem_cons.mp h
    rw [List.foldl_cons, ofTrees_add htree, ih hmore, List.append_assoc, List.singleton_append]

theorem isEmpty_ofTrees (trees : List Entries) : (ofTrees trees).isEmpty = trees.isEmpty := by
  match trees with
  | [] => rfl
  | [_] => rfl
  | _ :: _ :: _ => rfl

theorem ofTrees_several {trees : List Entries} (h : 2 ≤ trees.length) :
    ofTrees trees = several trees := by
  match trees with
  | [] => simp at h
  | [_] => simp at h
  | _ :: _ :: _ => rfl

end Accumulated

namespace Builder

def accumulated : Builder → Accumulated
  | select s => s.filter
  | update u => u.filter
  | delete d => d.filter
  | _ => .empty

def Filtered (b : Builder) : Prop := b.kind = .select ∨ b.kind = .update ∨ b.kind = .delete

/-- What a call gives to a builder of the kind as a filter. -/
def Call.query? : StatementKind → Call → Option Value
  | .select, .select (.query v) => some v
  | .update, .update (.query v) => some v
  | .delete, .delete (.query v) => some v
  | _, _ => none

def restriction? : Value → Option Entries
  | .map (e :: es) => some (e :: es)
  | _ => none

/-- The filters other than empty ones that calls give to a builder of the kind, in their order. -/
def restrictions (kind : StatementKind) (calls : List Call) : List Entries :=
  (calls.filterMap (Call.query? kind)).filterMap restriction?

theorem restriction?_ne_nil {v : Value} {tree : Entries} (h : restriction? v = some tree) :
    tree ≠ [] := by
  unfold restriction? at h
  split at h
  · obtain rfl := Option.some.inj h
    exact List.cons_ne_nil _ _
  · cases h

theorem restrictions_ne_nil {kind : StatementKind} {calls : List Call} :
    ∀ tree ∈ restrictions kind calls, tree ≠ [] := by
  intro tree htree
  obtain ⟨v, -, hv⟩ := List.mem_filterMap.mp htree
  exact restriction?_ne_nil hv

theorem restrictions_cons (kind : StatementKind) (call : Call) (calls : List Call) :
    restrictions kind (call :: calls) =
      ((call.query? kind).bind restriction?).toList ++ restrictions kind calls := by
  simp only [restrictions, List.filterMap_cons]
  cases call.query? kind with
  | none => rfl
  | some v =>
    simp only [List.filterMap_cons, Option.bind_some]
    cases restriction? v <;> rfl

end Builder

section Steps

open Builder

/-- Joins are no part of the filter. -/
theorem Select.after_addJoins_filter (vs : List Value) (s : Select) :
    (after (addJoins vs) s).table = s.table ∧ (after (addJoins vs) s).filter = s.filter := by
  induction vs generalizing s with
  | nil => exact ⟨rfl, rfl⟩
  | cons v vs ih =>
    rw [addJoins]
    refine after_read_keeps (I := fun t : Select => t.table = s.table ∧ t.filter = s.filter)
      ⟨rfl, rfl⟩ fun j _ => ?_
    rw [after_modify_bind]
    exact ih _

theorem Select.after_apply_filter (c : Select.Call) (s : Select) :
    (after (apply c) s).table = s.table ∧ (after (apply c) s).filter =
      ((Call.query? .select (.select c)).bind restriction?).toList.foldl Accumulated.add s.filter := by
  have hread : ∀ {α : Type} {x : Except Error α} {f : α → Change Select Unit},
      (∀ a, (after (f a) s).table = s.table ∧ (after (f a) s).filter = s.filter) →
      (after (liftM x >>= f) s).table = s.table ∧ (after (liftM x >>= f) s).filter = s.filter :=
    fun h => after_read_keeps (I := fun t : Select => t.table = s.table ∧ t.filter = s.filter)
      ⟨rfl, rfl⟩ fun a _ => h a
  cases c with
  | query v =>
    cases v with
    | map es =>
      cases es with
      | nil => exact ⟨rfl, s.filter.add_nil⟩
      | cons e es => exact ⟨rfl, rfl⟩
    | _ => exact ⟨rfl, rfl⟩
  | project fields => exact hread fun p => ⟨rfl, rfl⟩
  | join joins => exact hread fun items => after_addJoins_filter items s
  | sort v => exact hread fun order => ⟨rfl, rfl⟩
  | limit v => exact hread fun n => ⟨rfl, rfl⟩
  | offset v => exact hread fun n => ⟨rfl, rfl⟩

theorem Update.after_apply_filter (c : Update.Call) (u : Update) :
    (after (apply c) u).table = u.table ∧ (after (apply c) u).filter =
      ((Call.query? .update (.update c)).bind restriction?).toList.foldl Accumulated.add u.filter := by
  cases c with
  | query v =>
    cases v with
    | map es =>
      cases es with
      | nil => exact ⟨rfl, u.filter.add_nil⟩
      | cons e es => exact ⟨rfl, rfl⟩
    | _ => exact ⟨rfl, rfl⟩
  | update v =>
    rw [apply, after_get_bind]
    exact after_read_keeps (I := fun t : Update => t.table = u.table ∧ t.filter = u.filter)
      ⟨rfl, rfl⟩ fun payload _ => ⟨rfl, rfl⟩
  | single => exact ⟨rfl, rfl⟩

theorem Delete.after_apply_filter (c : Delete.Call) (d : Delete) :
    (after (apply c) d).table = d.table ∧ (after (apply c) d).filter =
      ((Call.query? .delete (.delete c)).bind restriction?).toList.foldl Accumulated.add d.filter := by
  cases c with
  | query v =>
    cases v with
    | map es =>
      cases es with
      | nil => exact ⟨rfl, d.filter.add_nil⟩
      | cons e es => exact ⟨rfl, rfl⟩
    | _ => exact ⟨rfl, rfl⟩
  | single => exact ⟨rfl, rfl⟩

end Steps

namespace Builder

variable {b : Builder}

/-- What one call leaves of a builder that takes filters: its kind, its table, and its filters with
the one that the call gives. -/
theorem after_apply_filtered (hb : b.Filtered) (call : Call) :
    (after (apply call) b).kind = b.kind ∧ (after (apply call) b).table = b.table ∧
      (after (apply call) b).accumulated = ((call.query? b.kind).bind restriction?).toList.foldl
        Accumulated.add b.accumulated := by
  cases b with
  | select s =>
    cases call with
    | select c =>
      have h := after_change .select s (Select.apply c) (.select s)
      exact h ▸ ⟨rfl, Select.after_apply_filter c s⟩
    | _ => exact ⟨rfl, rfl, rfl⟩
  | update u =>
    cases call with
    | update c =>
      have h := after_change .update u (Update.apply c) (.update u)
      exact h ▸ ⟨rfl, Update.after_apply_filter c u⟩
    | _ => exact ⟨rfl, rfl, rfl⟩
  | delete d =>
    cases call with
    | delete c =>
      have h := after_change .delete d (Delete.apply c) (.delete d)
      exact h ▸ ⟨rfl, Delete.after_apply_filter c d⟩
    | _ => exact ⟨rfl, rfl, rfl⟩
  | _ => simp [Filtered, kind] at hb

theorem filter?_filtered (hb : b.Filtered) : b.filter? = some b.accumulated.toTree := by
  cases b with
  | select s => rfl
  | update u => rfl
  | delete d => rfl
  | _ => simp [Filtered, kind] at hb

theorem run_filtered (hb : b.Filtered) (calls : List Call) :
    (run calls b).kind = b.kind ∧ (run calls b).table = b.table ∧
      (run calls b).accumulated =
        (restrictions b.kind calls).foldl Accumulated.add b.accumulated := by
  induction calls generalizing b with
  | nil => exact ⟨rfl, rfl, rfl⟩
  | cons call calls ih =>
    obtain ⟨hkind, htable, hfilter⟩ := after_apply_filtered hb call
    have hnext : (after (apply call) b).Filtered := by rwa [Filtered, hkind]
    obtain ⟨hkinds, htables, hfilters⟩ := ih hnext
    refine ⟨hkinds.trans hkind, htables.trans htable, hfilters.trans ?_⟩
    rw [hkind, hfilter, restrictions_cons, List.foldl_append]

theorem start_filtered {kind : StatementKind} {table idField pipeline : Value}
    {registry : RegistryId} (hkind : kind = .select ∨ kind = .update ∨ kind = .delete)
    (h : start kind table registry idField pipeline = .ok b) :
    b.kind = kind ∧ b.accumulated = .empty := by
  rcases hkind with rfl | rfl | rfl
  all_goals
    obtain ⟨name, -, h⟩ := except_bind_eq_ok_iff.mp h
    obtain rfl := Except.ok.inj h
    exact ⟨rfl, rfl⟩

theorem isEmpty_accumulated {trees : List Entries} (htrees : b.accumulated = .ofTrees trees) :
    b.accumulated.isEmpty = true ↔ trees = [] := by
  rw [htrees, Accumulated.isEmpty_ofTrees, List.isEmpty_iff]

theorem accumulated_nonempty {trees : List Entries} (htrees : b.accumulated = .ofTrees trees)
    (hne : trees ≠ []) : b.accumulated.isEmpty = false := by
  rw [← Bool.not_eq_true, isEmpty_accumulated htrees]
  exact hne

/-- The filters of a builder after any calls. -/
theorem run_accumulated {kind : StatementKind} {table idField pipeline : Value}
    {registry : RegistryId} (hkind : kind = .select ∨ kind = .update ∨ kind = .delete)
    (h : start kind table registry idField pipeline = .ok b) (calls : List Call) :
    (run calls b).kind = kind ∧ (run calls b).table = b.table ∧
      (run calls b).accumulated = .ofTrees (restrictions kind calls) := by
  obtain ⟨rfl, hempty⟩ := start_filtered hkind h
  obtain ⟨hkinds, htable, hfilter⟩ := run_filtered hkind calls
  refine ⟨hkinds, htable, ?_⟩
  rw [hfilter, hempty]
  exact Accumulated.foldl_add_ofTrees restrictions_ne_nil []

end Builder

end BoundQuery
