import BoundQuery.Proofs.Edit

/-! What a failed call leaves behind. A call is read before anything is changed, so that a failure
changes nothing, but for two calls: joins are added one by one as they are read, and upserting is
switched before its fields are read. -/
namespace BoundQuery

theorem Select.joinsBeforeFault_eq_nil_iff {items : List Value} :
    joinsBeforeFault items = [] ↔ ¬ ∃ v rest j, items = v :: rest ∧ readJoin v = .ok j := by
  cases items with
  | nil => simp [joinsBeforeFault]
  | cons v rest => cases hv : readJoin v <;> simp [joinsBeforeFault, hv]

namespace Builder

/-- If the call fails, it has changed the builder all the same: a join is read before a faulty
one, or upserting is switched. -/
def ChangedHalfway : Call → Builder → Prop
  | .select (.join joins), select _ =>
    ∃ v rest j, Select.joinItems joins = .ok (v :: rest) ∧ Select.readJoin v = .ok j
  | .insert (.upsert enable _), insert i => enable.truthy ≠ i.upsert
  | _, _ => False

theorem leave_eq_self_iff (call : Call) (b : Builder) :
    leave call b = b ↔ ¬ ChangedHalfway call b := by
  cases call with
  | select c =>
    cases b with
    | select s =>
      cases c with
      | join joins =>
        cases hitems : Select.joinItems joins with
        | error e => simp [leave, Select.leave, ChangedHalfway, hitems]
        | ok items =>
          have hsame : leave (.select (.join joins)) (select s) = select s ↔
              Select.joinsBeforeFault items = [] := by
            cases s
            simp [leave, Select.leave, hitems]
          rw [hsame, Select.joinsBeforeFault_eq_nil_iff]
          simp [ChangedHalfway, hitems]
      | _ => simp [leave, Select.leave, ChangedHalfway]
    | _ => cases c <;> simp [leave, ChangedHalfway]
  | insert c =>
    cases b with
    | insert i =>
      cases c with
      | upsert enable fields =>
        cases i
        simp [leave, Insert.leave, ChangedHalfway]
      | _ => simp [leave, Insert.leave, ChangedHalfway]
    | _ => cases c <;> simp [leave, ChangedHalfway]
  | _ => simp [leave, ChangedHalfway]

/-- A failed call leaves the builder as it was, so that all that comes later is as without it; except
for joins with a faulty one after others, which stay, and for upserting whose fields cannot be read,
which is switched. -/
theorem failed_call_leaves_builder (call : Call) (b : Builder) (e : Error) (b' : Builder)
    (h : apply call b = .error e b') :
    b' = leave call b ∧ (b' = b ↔ ¬ ChangedHalfway call b) ∧
      (∀ later, run (call :: later) b = run later (leave call b)) ∧
      (¬ ChangedHalfway call b → ∀ later scope,
        (run (call :: later) b).compile scope = (run later b).compile scope) := by
  have hleft : b' = leave call b := by
    rw [apply_eq] at h
    cases hread : read call b with
    | ok edit =>
      rw [hread] at h
      cases h
    | error _ =>
      rw [hread] at h
      obtain ⟨-, rfl⟩ := h
      rfl
  have hrun : ∀ later, run (call :: later) b = run later (leave call b) := by
    intro later
    have hafter : after (apply call) b = b' := by rw [after, h]
    rw [run, List.foldl_cons, hafter, hleft, run]
  refine ⟨hleft, hleft ▸ leave_eq_self_iff call b, hrun, fun hnot later scope => ?_⟩
  rw [hrun, (leave_eq_self_iff call b).mpr hnot]

def halfFaultyJoins : Value :=
  .list [.map [(.str "tableName", .str "u"), (.str "on", .str "u.id = t.id")],
    .map [(.str "tableName", .str "v")]]

/-- The first join stays and upserting is switched on, and the next statements show it. -/
theorem failed_calls_show_in_statements :
    (∃ e b, apply (.select (.join halfFaultyJoins)) (.select { table := "t" }) = .error e b ∧
      b = leave (.select (.join halfFaultyJoins)) (.select { table := "t" }) ∧
      b ≠ .select { table := "t" } ∧
      ∃ j, b.compile (({} : Catalogue).scope 0) {} =
        .ok ⟨"SELECT * FROM t INNER JOIN u ON u.id = t.id", []⟩ j) ∧
    ∃ e b, apply (.insert (.upsert (.bool true) (.int 5)))
        (.insert { table := "t", documents := [[(.str "a", .int 1)]] }) = .error e b ∧
      b ≠ .insert { table := "t", documents := [[(.str "a", .int 1)]] } ∧
      ∃ j, b.compile (({} : Catalogue).scope 0) {} =
        .ok ⟨"INSERT INTO t (a) VALUES (?) ON DUPLICATE KEY UPDATE a = VALUES(a)", [.int 1]⟩ j := by
  have hjoins := failed_call_leaves_builder (.select (.join halfFaultyJoins))
    (.select { table := "t" }) _ _ rfl
  have hupsert := failed_call_leaves_builder (.insert (.upsert (.bool true) (.int 5)))
    (.insert { table := "t", documents := [[(.str "a", .int 1)]] }) _ _ rfl
  have hjoined : ChangedHalfway (.select (.join halfFaultyJoins)) (.select { table := "t" }) :=
    ⟨_, _, _, rfl, rfl⟩
  have hswitched : ChangedHalfway (.insert (.upsert (.bool true) (.int 5)))
      (.insert { table := "t", documents := [[(.str "a", .int 1)]] }) := Bool.noConfusion
  exact ⟨⟨_, _, rfl, hjoins.1, fun h => hjoins.2.1.mp h hjoined, _, rfl⟩,
    _, _, rfl, fun h => hupsert.2.1.mp h hswitched, _, rfl⟩

end Builder

end BoundQuery
