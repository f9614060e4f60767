import BoundQuery.Catalogue
import BoundQuery.Proofs.SideBySide

/-! What is compiled does not depend on what was compiled before: the journal is written, but
no result comes from it. -/
namespace BoundQuery

namespace Work

variable {α β : Type}

def result? : EStateM.Result Error Journal α → Option α
  | .ok a _ => some a
  | .error _ _ => none

/-- From every two journals the two have the same result, or both have none. -/
def SameResult (w w' : Work α) : Prop := ∀ j j', result? (w j) = result? (w' j')

theorem sameResult_congruence : Congruence fun _ => SameResult where
  pure _ _ _ := rfl
  bind := by
    intro α β w w' f f' hw hf j j'
    have h := hw j j'
    simp only [Bind.bind, EStateM.bind]
    cases hj : w j with
    | ok a k =>
      rw [hj] at h
      cases hj' : w' j' with
      | ok a' k' =>
        rw [hj'] at h
        obtain rfl := Option.some.inj h
        exact hf a k k'
      | error e k' =>
        rw [hj'] at h
        cases h
    | error e k =>
      rw [hj] at h
      cases hj' : w' j' with
      | ok a' k' =>
        rw [hj'] at h
        cases h
      | error e' k' => rfl
  throw _ _ _ := rfl
  note _ _ _ := rfl

/-- From every journal the work has the same result, or has none. -/
def Steady (w : Work α) : Prop := SameResult w w

namespace Steady

variable {w : Work α}

theorem pure (a : α) : Steady (Pure.pure a : Work α) := sameResult_congruence.pure a

theorem throw (e : Error) : Steady (MonadExcept.throw e : Work α) := sameResult_congruence.throw e

theorem noted (e : Event) (a : α) : Steady (do Work.note e; return a : Work α) :=
  sameResult_congruence.noted e a

theorem bind {f : α → Work β} (hw : Steady w) (hf : ∀ a, Steady (f a)) : Steady (w >>= f) :=
  sameResult_congruence.bind hw hf

/-- What fails in the end has no result, whatever came before. -/
theorem bind_throw (w : Work α) (e : Error) : Steady (w >>= fun _ => (MonadExcept.throw e : Work β)) := by
  have hnone : ∀ j, result? ((w >>= fun _ => (MonadExcept.throw e : Work β)) j) = none := by
    intro j
    simp only [Bind.bind, EStateM.bind]
    cases w j <;> rfl
  intro j j'
  rw [hnone, hnone]

theorem result_unique (hw : Steady w) {j j' k k' : Journal} {a a' : α} (h : w j = .ok a k)
    (h' : w j' = .ok a' k') : a = a' := by
  have hresult := hw j j'
  rw [h, h'] at hresult
  exact Option.some.inj hresult

end Steady

def Returns (w : Work α) (a : α) : Prop := ∃ j j', w j = .ok a j'

theorem returns_pure_iff {a b : α} : Returns (Pure.pure a : Work α) b ↔ a = b := by
  constructor
  · rintro ⟨j, j', h⟩
    cases h
    rfl
  · rintro rfl
    exact ⟨{}, {}, rfl⟩

theorem returns_ofExcept_iff {x : Except Error α} {a : α} :
    Returns (liftM x : Work α) a ↔ x = .ok a := by
  cases x with
  | ok b => exact returns_pure_iff.trans (Except.ok.injEq b a ▸ Iff.rfl)
  | error e =>
    constructor
    · rintro ⟨j, j', h⟩
      cases h
    · nofun

theorem returns_noted_iff {e : Event} {a b : α} :
    Returns (do Work.note e; return a : Work α) b ↔ a = b := by
  constructor
  · rintro ⟨j, j', h⟩
    cases h
    rfl
  · rintro rfl
    exact ⟨{}, _, rfl⟩

theorem returns_map_iff {w : Work α} {f : α → β} {b : β} :
    Returns (f <$> w) b ↔ ∃ a, w.Returns a ∧ f a = b := by
  rw [map_eq_pure_bind]
  constructor
  · rintro ⟨j, j', h⟩
    obtain ⟨a, k, ha, hb⟩ := bind_eq_ok_iff.mp h
    obtain ⟨rfl, rfl⟩ := hb
    exact ⟨a, ⟨j, _, ha⟩, rfl⟩
  · rintro ⟨a, ⟨j, k, ha⟩, rfl⟩
    exact ⟨j, k, bind_eq_ok_iff.mpr ⟨a, k, ha, rfl⟩⟩

/-- What is returned from some journal is returned from every journal. -/
theorem Steady.returns_iff {w : Work α} (hw : Steady w) (j : Journal) {a : α} :
    w.Returns a ↔ ∃ j', w j = .ok a j' := by
  constructor
  · rintro ⟨k, k', hk⟩
    have h := hw k j
    rw [hk] at h
    cases hj : w j with
    | ok b j' =>
      rw [hj] at h
      obtain rfl := Option.some.inj h
      exact ⟨j', rfl⟩
    | error e j' =>
      rw [hj] at h
      cases h
  · rintro ⟨j', hj⟩
    exact ⟨j, j', hj⟩

theorem returns_bind_iff {w : Work α} {f : α → Work β} (hf : ∀ a, Steady (f a)) {b : β} :
    Returns (w >>= f) b ↔ ∃ a, w.Returns a ∧ (f a).Returns b := by
  constructor
  · rintro ⟨j, j', h⟩
    obtain ⟨a, k, ha, hb⟩ := bind_eq_ok_iff.mp h
    exact ⟨a, ⟨j, k, ha⟩, ⟨k, j', hb⟩⟩
  · rintro ⟨a, ⟨j, k, ha⟩, hb⟩
    obtain ⟨k', hk⟩ := ((hf a).returns_iff k).mp hb
    exact ⟨j, k', bind_eq_ok_iff.mpr ⟨a, k, ha, hk⟩⟩

end Work

def Scope.Steady (scope : Scope) : Prop := ∀ ref, (scope.embed ref).Steady

theorem Scope.Steady.beside {scope : Scope} (hs : scope.Steady) (demands : List Demand) :
    scope.Beside (fun _ => Work.SameResult) scope demands :=
  ⟨rfl, fun ref _ => hs ref⟩

section Statements

variable {scope : Scope}

theorem Projection.clause_steady (table : String) (joins : List Join) (p : Option Projection) :
    (Projection.clause table joins p).Steady :=
  clause_related Work.sameResult_congruence table joins p

theorem Select.condition_steady (hs : scope.Steady) (s : Select) : (s.condition scope).Steady :=
  condition_related Work.sameResult_congruence (hs.beside _)

theorem Select.compile_steady (hs : scope.Steady) (s : Select) : (s.compile scope).Steady :=
  compile_related Work.sameResult_congruence (hs.beside _)

theorem Plan.run_steady (hs : scope.Steady) (table : String) (plan : Plan) (stages : List Stage) :
    (plan.run scope table stages).Steady :=
  plan.run_related Work.sameResult_congruence table (hs.beside _)

theorem Pipeline.compile_steady (hs : scope.Steady) (table : String) (stages : List Stage) :
    (compile scope table stages).Steady :=
  compile_related Work.sameResult_congruence table (hs.beside _)

end Statements

namespace Catalogue

variable (c : Catalogue)

theorem keep_eq (id : Nat) (s : Statement) (j : Journal) :
    ∃ k, keep id s j = .ok ⟨"(" ++ s.sql ++ ")", s.params⟩ k := by
  let embedded : Statement := ⟨"(" ++ s.sql ++ ")", s.params⟩
  by_cases h : (j.kept id).map Statement.sql ≠ some embedded.sql
  · refine ⟨(j.note (.cached embedded.sql)).keep id embedded,
      bind_eq_ok_iff.mpr ⟨j, j, rfl, ?_⟩⟩
    rw [if_pos h]
    rfl
  · refine ⟨j.keep id embedded, bind_eq_ok_iff.mpr ⟨j, j, rfl, ?_⟩⟩
    rw [if_neg h]
    rfl

theorem keep_steady (id : Nat) (s : Statement) : (keep id s).Steady := by
  intro j j'
  obtain ⟨k, hk⟩ := keep_eq id s j
  obtain ⟨k', hk'⟩ := keep_eq id s j'
  rw [hk, hk']
  rfl

/-- Sub-queries are compiled alike, however deep they are nested. -/
theorem embed_steady (fuel id : Nat) : (c.embed fuel id).Steady := by
  induction fuel generalizing id with
  | zero => exact .throw _
  | succ fuel ih =>
    unfold embed
    split
    · have hR := Work.sameResult_congruence
      exact hR.bind (c.compileSource_related hR _ fun inner _ => ih inner) (keep_steady id)
    · exact .bind_throw _ _
    · exact .throw _

theorem scope_steady (id : RegistryId) : (c.scope id).Steady := fun ref => c.embed_steady _ ref.id

end Catalogue

end BoundQuery
