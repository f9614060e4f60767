import Mathlib.Data.List.Basic

/-! Rows of operations of several kinds. Operations of different kinds commute, and of some kinds
the last operation overrides the others; so a row does what the operations of each kind do, in
their own order. -/
namespace BoundQuery.Rows

variable {α κ σ : Type} [DecidableEq κ]

def ofKind (kind : α → κ) (k : κ) (row : List α) : List α := row.filter fun x => kind x = k

/-- The row without the operations that a later one of their kind overrides. -/
def latest (kind : α → κ) (overridden : κ → Bool) : List α → List α
  | [] => []
  | x :: rest =>
    if overridden (kind x) && rest.any fun later => kind later = kind x then
      latest kind overridden rest
    else x :: latest kind overridden rest

section Kinds

variable {kind : α → κ} {k : κ} {x : α}

theorem ofKind_cons_self (x : α) (rest : List α) :
    ofKind kind (kind x) (x :: rest) = x :: ofKind kind (kind x) rest := by
  simp [ofKind]

theorem ofKind_cons_of_ne (h : kind x ≠ k) (rest : List α) :
    ofKind kind k (x :: rest) = ofKind kind k rest := by
  simp [ofKind, h]

theorem forall_mem_ofKind {row : List α} : ∀ x ∈ ofKind kind k row, kind x = k := by
  intro x hx
  simpa using (List.mem_filter.mp hx).2

theorem ofKind_append (first second : List α) :
    ofKind kind k (first ++ second) = ofKind kind k first ++ ofKind kind k second :=
  List.filter_append ..

theorem ofKind_eq_nil_iff {row : List α} : ofKind kind k row = [] ↔ ∀ x ∈ row, kind x ≠ k := by
  simp [ofKind]

variable {overridden : κ → Bool}

theorem ofKind_latest_of_kept (hk : overridden k = false) (row : List α) :
    ofKind kind k (latest kind overridden row) = ofKind kind k row := by
  induction row with
  | nil => rfl
  | cons x rest ih =>
    by_cases hx : kind x = k
    · subst hx
      rw [latest, hk, Bool.false_and, if_neg (by simp), ofKind_cons_self, ofKind_cons_self, ih]
    · rw [latest, ofKind_cons_of_ne hx]
      split
      · exact ih
      · rw [ofKind_cons_of_ne hx, ih]

theorem ofKind_latest_of_overridden (hk : overridden k = true) (row : List α) :
    ofKind kind k (latest kind overridden row) = (ofKind kind k row).getLast?.toList := by
  induction row with
  | nil => rfl
  | cons x rest ih =>
    by_cases hx : kind x = k
    · subst hx
      have hany : (rest.any fun later => kind later = kind x) = true ↔
          ofKind kind (kind x) rest ≠ [] := by
        simp [ofKind]
      rw [latest, hk, Bool.true_and, ofKind_cons_self, List.getLast?_cons]
      by_cases hrest : ofKind kind (kind x) rest = []
      · rw [if_neg fun h => hany.mp h hrest, ofKind_cons_self, ih, hrest]
        rfl
      · rw [if_pos (hany.mpr hrest), ih, List.getLast?_eq_some_getLast hrest]
        rfl
    · rw [latest, ofKind_cons_of_ne hx]
      split
      · exact ih
      · rw [ofKind_cons_of_ne hx, ih]

end Kinds

section Fold

variable (kind : α → κ) (run : σ → α → σ)
  (hcommute : ∀ {x y}, kind x ≠ kind y → ∀ s, run (run s x) y = run (run s y) x)

include hcommute

omit [DecidableEq κ] in
theorem foldl_comm {x : α} {row : List α} (h : ∀ y ∈ row, kind y ≠ kind x) (s : σ) :
    row.foldl run (run s x) = run (row.foldl run s) x := by
  induction row generalizing s with
  | nil => rfl
  | cons y rest ih =>
    obtain ⟨hy, hrest⟩ := List.forall_mem_cons.mp h
    rw [List.foldl_cons, List.foldl_cons, hcommute (Ne.symm hy), ih hrest]

/-- Rows with the same operations of each kind do the same. By induction on the first row: its first
operation is also the first of its kind in the other row, where those before it are of other kinds. -/
theorem foldl_eq_of_ofKind_eq {p q : List α} (h : ∀ k, ofKind kind k p = ofKind kind k q) (s : σ) :
    p.foldl run s = q.foldl run s := by
  induction p generalizing q s with
  | nil =>
    cases q with
    | nil => rfl
    | cons y rest =>
      have hy := h (kind y)
      rw [ofKind_cons_self] at hy
      cases hy
  | cons x rest ih =>
    have hx := h (kind x)
    rw [ofKind_cons_self, eq_comm, ofKind, List.filter_eq_cons_iff] at hx
    obtain ⟨before, later, rfl, hbefore, -, hlater⟩ := hx
    have hothers : ∀ y ∈ before, kind y ≠ kind x := fun y hy => by simpa using hbefore y hy
    have hrest : ∀ k, ofKind kind k rest = ofKind kind k (before ++ later) := by
      intro k
      have hk := h k
      rw [ofKind_append] at hk ⊢
      by_cases hkind : kind x = k
      · subst hkind
        rw [ofKind_eq_nil_iff.mpr hothers]
        exact hlater.symm
      · rwa [ofKind_cons_of_ne hkind, ofKind_cons_of_ne hkind] at hk
    rw [List.foldl_cons, ih hrest, List.foldl_append, List.foldl_append, List.foldl_cons,
      foldl_comm kind run hcommute hothers]

variable {overridden : κ → Bool} (hoverride : ∀ {x y}, kind x = kind y → overridden (kind y) = true →
  ∀ s, run (run s x) y = run s y)

include hoverride

theorem foldl_overridden {x : α} {row : List α} (hx : overridden (kind x) = true)
    (h : ∃ y ∈ row, kind y = kind x) (s : σ) : row.foldl run (run s x) = row.foldl run s := by
  induction row generalizing s with
  | nil => simp at h
  | cons y rest ih =>
    by_cases hy : kind y = kind x
    · rw [List.foldl_cons, List.foldl_cons, hoverride hy.symm (hy ▸ hx)]
    · have hrest : ∃ z ∈ rest, kind z = kind x := by simpa [hy] using h
      rw [List.foldl_cons, List.foldl_cons, hcommute (Ne.symm hy), ih hrest]

theorem foldl_latest (row : List α) (s : σ) :
    (latest kind overridden row).foldl run s = row.foldl run s := by
  induction row generalizing s with
  | nil => rfl
  | cons x rest ih =>
    rw [latest]
    split
    case isTrue h =>
      obtain ⟨hx, hlater⟩ := Bool.and_eq_true_iff.mp h
      have hmember : ∃ y ∈ rest, kind y = kind x := by simpa using hlater
      rw [ih, List.foldl_cons, foldl_overridden kind run hcommute hoverride hx hmember]
    case isFalse => rw [List.foldl_cons, List.foldl_cons, ih]

/-- Of the operations of a kind only the last one counts, or all of them do in their order. -/
theorem foldl_eq_of_last_eq {p q : List α}
    (hall : ∀ k, overridden k = false → ofKind kind k p = ofKind kind k q)
    (hlast : ∀ k, overridden k = true → (ofKind kind k p).getLast? = (ofKind kind k q).getLast?)
    (s : σ) : p.foldl run s = q.foldl run s := by
  rw [← foldl_latest kind run hcommute hoverride p, ← foldl_latest kind run hcommute hoverride q]
  refine foldl_eq_of_ofKind_eq kind run hcommute (fun k => ?_) s
  cases hk : overridden k with
  | false => rw [ofKind_latest_of_kept hk, ofKind_latest_of_kept hk, hall k hk]
  | true => rw [ofKind_latest_of_overridden hk, ofKind_latest_of_overridden hk, hlast k hk]

end Fold

end BoundQuery.Rows
