import BoundQuery.Proofs.Accumulation
import BoundQuery.Proofs.Applied
import BoundQuery.Proofs.Vacuity

/-! Which writes have a condition that restricts them. A DELETE or UPDATE is refused without a
filter; with filters that are all vacuous it is not refused, and its condition is the one that always
holds. -/
namespace BoundQuery

namespace Accumulated

variable {trees : List Entries}

theorem applied_maps (trees : List Entries) :
    Filter.childrenApplied (trees.map .map) =
      trees.flatMap fun tree => Filter.applied (.map tree) := by
  induction trees with
  | nil => simp [Filter.childrenApplied]
  | cons tree trees ih => simp [Filter.childrenApplied, ih]

/-- Filters given one after the other apply the operators of each of them. -/
theorem applied_ofTrees (trees : List Entries) :
    Filter.applied (ofTrees trees).toTree =
      trees.flatMap fun tree => Filter.applied (.map tree) := by
  have hmark : (Value.str "$and").operator? = some "$and" := by decide
  match trees with
  | [] => simp [ofTrees, toTree, Filter.applied, Filter.entriesApplied]
  | [tree] => simp [ofTrees, toTree]
  | first :: second :: rest =>
    rw [← applied_maps]
    simp [ofTrees, toTree, Filter.applied, Filter.entriesApplied, Filter.entryApplied, hmark]

theorem unplugged_ofTrees {scope : Scope} (h : ∀ tree ∈ trees, Filter.Unplugged scope (.map tree)) :
    Filter.Unplugged scope (ofTrees trees).toTree := by
  intro name hname
  rw [applied_ofTrees] at hname
  obtain ⟨tree, htree, happlied⟩ := List.mem_flatMap.mp hname
  exact h tree htree name happlied

theorem groupStanding_maps : Filter.groupStanding (trees.map .map) = .trivial ↔
    ∀ tree ∈ trees, Filter.Vacuous (.map tree) := by
  induction trees with
  | nil => simp [Filter.groupStanding]
  | cons tree trees ih =>
    rw [List.map_cons, Filter.groupStanding, List.forall_mem_cons, ← ih, Filter.Vacuous]
    cases Filter.standing (.map tree) <;> simp

/-- Filters given one after the other are vacuous together if each of them is. -/
theorem vacuous_ofTrees :
    Filter.Vacuous (ofTrees trees).toTree ↔ ∀ tree ∈ trees, Filter.Vacuous (.map tree) := by
  have hmark : (Value.str "$and").operator? = some "$and" := by decide
  have hall : Connective.ofName? "$and" = some .all := rfl
  match trees with
  | [] => exact iff_of_true rfl nofun
  | [tree] => simp [ofTrees, toTree]
  | first :: second :: rest =>
    rw [← groupStanding_maps, Filter.Vacuous, ofTrees_several (by simp), toTree, Filter.standing,
      Filter.standings, Filter.standings, Filter.entryStanding?_group hmark hall rfl]
    rfl

end Accumulated

/-- What stands around the condition of a statement, and the values bound before it. -/
structure Frame where
  opening : String
  bound : List Value
  closing : String

/-- An update without assignments has no frame. -/
def Update.frame? (u : Update) : Option Frame :=
  match u.payload with
  | some (.operations operations) =>
    match assignments operations with
    | .ok a =>
      if a.texts.isEmpty then none else some ⟨u.head a.texts, a.params, singleLimit u.single⟩
    | .error _ => none
  | _ => none

theorem Update.frame?_eq_some_iff {u : Update} {frame : Frame} :
    u.frame? = some frame ↔ ∃ operations a, u.payload = some (.operations operations) ∧
      assignments operations = .ok a ∧ a.texts.isEmpty = false ∧
      frame = ⟨u.head a.texts, a.params, singleLimit u.single⟩ := by
  constructor
  · intro h
    unfold Update.frame? at h
    split at h
    · rename_i operations hpayload
      split at h
      · rename_i a ha
        split at h
        · cases h
        · rename_i htexts
          exact ⟨operations, a, hpayload, ha, by simpa using htexts, (Option.some.inj h).symm⟩
      · cases h
    · cases h
  · rintro ⟨operations, a, hpayload, ha, htexts, rfl⟩
    simp [Update.frame?, hpayload, ha, htexts]

namespace Builder

/-- The rows to write are chosen by the filter alone, and not given one by one. -/
def ByFilter : Builder → Prop
  | update u => ∀ rows, u.payload ≠ some (.rows rows)
  | _ => True

def frame? : Builder → Option Frame
  | delete d => some ⟨"DELETE FROM " ++ d.table ++ " WHERE ", [], singleLimit d.single⟩
  | update u => u.frame?
  | _ => none

/-- DELETE and UPDATE are the kinds of statements that are refused without a filter. -/
def Guarded (b : Builder) : Prop := b.kind = .delete ∨ b.kind = .update

theorem Guarded.filtered {b : Builder} (hb : b.Guarded) : b.Filtered := by
  rcases hb with h | h
  · exact .inr (.inr h)
  · exact .inr (.inl h)

variable {scope : Scope} {b : Builder}

theorem compile_unfiltered (hb : b.Guarded) (h : b.accumulated.isEmpty = true) (j : Journal) :
    b.compile scope j = .error (missingFilter b.kind b.table) j := by
  cases b with
  | delete d =>
    have hd : d.filter.isEmpty = true := h
    simp only [compile, Delete.compile, hd]
    rfl
  | update u =>
    have hu : u.filter.isEmpty = true := h
    simp only [compile, Update.compile, hu]
    rfl
  | _ => simp [Guarded, kind] at hb

/-- With a filter, the condition is put into the frame. -/
theorem compile_framed (hb : b.Guarded) (hform : b.ByFilter) (h : b.accumulated.isEmpty = false)
    {s : Statement} {j j' : Journal} : b.compile scope j = .ok s j' ↔
      ∃ frame clause params k, b.frame? = some frame ∧
        Compile.collect frame.bound (Filter.compile scope b.kind.name b.accumulated.toTree) j =
          .ok (clause, params) k ∧
        s = ⟨frame.opening ++ clause ++ frame.closing, params⟩ ∧
        j' = k.note (.compiled b.kind s) := by
  cases b with
  | delete d =>
    rw [compile, Delete.compile_eq_ok_iff]
    constructor
    · rintro ⟨-, clause, params, k, hk, hs, hj⟩
      exact ⟨_, clause, params, k, rfl, hk, hs, hj⟩
    · rintro ⟨frame, clause, params, k, hframe, hk, hs, hj⟩
      obtain rfl := Option.some.inj hframe
      exact ⟨h, clause, params, k, hk, hs, hj⟩
  | update u =>
    rw [compile, Update.compile_eq_ok_iff]
    constructor
    · rintro ⟨-, payload, t, k, hpayload, hbody, rfl, hj⟩
      cases payload with
      | rows rows => exact absurd hpayload (hform rows)
      | operations operations =>
        obtain ⟨a, clause, params, ha, htexts, hk, rfl⟩ :=
          Update.operatorUpdate_eq_ok_iff.mp hbody
        have hframe := Update.frame?_eq_some_iff.mpr ⟨operations, a, hpayload, ha, htexts, rfl⟩
        exact ⟨_, clause, params, k, hframe, hk, rfl, hj⟩
    · rintro ⟨frame, clause, params, k, hframe, hk, rfl, hj⟩
      obtain ⟨operations, a, hpayload, ha, htexts, rfl⟩ := Update.frame?_eq_some_iff.mp hframe
      have hbody := Update.operatorUpdate_eq_ok_iff.mpr ⟨a, clause, params, ha, htexts, hk, rfl⟩
      exact ⟨h, .operations operations, _, k, hpayload, hbody, rfl, hj⟩
  | _ => simp [Guarded, kind] at hb

theorem compile_bare_guarded (hb : b.Guarded) (h : Filter.Unplugged scope b.accumulated.toTree) :
    b.compile scope = b.compile scope.bare := by
  refine compile_bare (fun hkind => ?_) fun tree htree => ?_
  · simp [Guarded, hkind] at hb
  · rw [filter?_filtered hb.filtered] at htree
    exact Option.some.inj htree ▸ h

/-- A vacuous filter passes the guard, and the condition always holds. -/
theorem compile_vacuous (hs : scope.Plain) (hb : b.Guarded) (hform : b.ByFilter)
    (hne : b.accumulated.isEmpty = false) (h : Filter.Vacuous b.accumulated.toTree) {frame : Frame}
    (hframe : b.frame? = some frame) (j : Journal) : ∃ j', b.compile scope j =
      .ok ⟨frame.opening ++ Dialect.alwaysTrue ++ frame.closing, frame.bound⟩ j' := by
  obtain ⟨k, hk⟩ := (Filter.compile_vacuous hs h b.kind.name).collect frame.bound j
  rw [List.append_nil] at hk
  exact ⟨_, (compile_framed hb hform hne).mpr ⟨frame, _, _, k, hframe, hk, rfl, rfl⟩⟩

theorem compile_condition (hs : scope.Plain) (hb : b.Guarded) (hform : b.ByFilter) {s : Statement}
    {j j' : Journal} (h : b.compile scope j = .ok s j') : ∃ frame condition,
      b.frame? = some frame ∧ s.sql = frame.opening ++ condition ++ frame.closing ∧
      (condition = Dialect.alwaysTrue ↔ Filter.Vacuous b.accumulated.toTree) := by
  have hne : b.accumulated.isEmpty = false := by
    rw [← Bool.not_eq_true]
    intro he
    rw [compile_unfiltered hb he] at h
    cases h
  obtain ⟨frame, clause, params, k, hframe, hk, rfl, -⟩ := (compile_framed hb hform hne).mp h
  obtain ⟨-, -, hiff⟩ := Compile.collect_eq_ok (Filter.compile_standing hs _) hk
  exact ⟨frame, clause, hframe, rfl, hiff⟩

/-- What calls on a new DELETE or UPDATE builder lead to, if no operator in them has a handler. If
all filters given are empty, it is refused. If they are vacuous without all being empty, it is not
refused, and its condition is the one that always holds. In all other cases its condition, if it
compiles, is not that one. -/
theorem write_condition_alwaysTrue_iff_vacuous {kind : StatementKind}
    (hkind : kind = .delete ∨ kind = .update) {table idField pipeline : Value}
    {registry : RegistryId} (hstart : start kind table registry idField pipeline = .ok b)
    (calls : List Call) (hform : (run calls b).ByFilter)
    (hunplugged : ∀ tree ∈ restrictions kind calls, Filter.Unplugged scope (.map tree)) :
    (restrictions kind calls = [] → ∀ j,
      (run calls b).compile scope j = .error (missingFilter kind b.table) j) ∧
    (restrictions kind calls ≠ [] →
      (∀ tree ∈ restrictions kind calls, Filter.Vacuous (.map tree)) →
      ∀ frame, (run calls b).frame? = some frame → ∀ j, ∃ j', (run calls b).compile scope j =
        .ok ⟨frame.opening ++ Dialect.alwaysTrue ++ frame.closing, frame.bound⟩ j') ∧
    ∀ j s j', (run calls b).compile scope j = .ok s j' → ∃ frame condition,
      (run calls b).frame? = some frame ∧
      s.sql = frame.opening ++ condition ++ frame.closing ∧
      (condition = Dialect.alwaysTrue ↔
        ∀ tree ∈ restrictions kind calls, Filter.Vacuous (.map tree)) := by
  have hfiltered : kind = .select ∨ kind = .update ∨ kind = .delete := .inr hkind.symm
  obtain ⟨hkinds, htable, hfilter⟩ := run_accumulated hfiltered hstart calls
  have hguarded : (run calls b).Guarded := by rwa [Guarded, hkinds]
  have hplain : scope.bare.Plain := fun _ => rfl
  have hvacuous : Filter.Vacuous (run calls b).accumulated.toTree ↔
      ∀ tree ∈ restrictions kind calls, Filter.Vacuous (.map tree) :=
    hfilter ▸ Accumulated.vacuous_ofTrees
  rw [compile_bare_guarded hguarded (hfilter ▸ Accumulated.unplugged_ofTrees hunplugged)]
  refine ⟨fun hnone j => ?_, fun hsome hall frame hframe j => ?_, fun j s j' hc => ?_⟩
  · rw [← htable, ← hkinds]
    exact compile_unfiltered hguarded ((isEmpty_accumulated hfilter).mpr hnone) j
  · have hne := accumulated_nonempty hfilter hsome
    exact compile_vacuous hplain hguarded hform hne (hvacuous.mpr hall) hframe j
  · obtain ⟨frame, condition, hframe, hsql, hiff⟩ := compile_condition hplain hguarded hform hc
    exact ⟨frame, condition, hframe, hsql, hiff.trans hvacuous⟩

/-- A filter of an empty group passes the guard. -/
theorem empty_group_condition_alwaysTrue :
    start .delete (.str "t") 0 .null .null = .ok (.delete { table := "t" }) ∧
    ∀ j, ∃ j', (run [.delete (.query (.map [(.str "$and", .list [])]))]
      (.delete { table := "t" })).compile ⟨{}, fun _ => throw .unfit⟩ j =
        .ok ⟨"DELETE FROM t WHERE 1=1", []⟩ j' := by
  have hstart : start .delete (.str "t") 0 .null .null = .ok (.delete { table := "t" }) := rfl
  have hunplugged : ∀ tree ∈ restrictions .delete
      [.delete (.query (.map [(.str "$and", .list [])]))],
      Filter.Unplugged ⟨{}, fun _ => throw .unfit⟩ (.map tree) := fun _ _ _ _ => rfl
  have h := write_condition_alwaysTrue_iff_vacuous (.inl rfl) hstart
    [.delete (.query (.map [(.str "$and", .list [])]))] trivial hunplugged
  refine ⟨hstart, h.2.1 nofun ?_ _ rfl⟩
  intro tree htree
  obtain rfl := List.mem_singleton.mp htree
  decide

end Builder

end BoundQuery
