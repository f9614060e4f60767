import BoundQuery.Error
import BoundQuery.Event

/-! Computations that can fail and keep what they did until then. `Work` compiles whole
statements and keeps a journal; `Compile` writes one statement and also binds values. -/
namespace BoundQuery

/-- The last statement compiled for each sub-query, and the events so far. -/
structure Journal where
  kept : Nat → Option Statement := fun _ => none
  events : List Event := []

/-- A statement being written: the values bound so far, and the journal. -/
structure Draft where
  params : List Value := []
  journal : Journal := {}

abbrev Work := EStateM Error Journal

abbrev Compile := EStateM Error Draft

instance {σ : Type} : MonadLift (Except Error) (EStateM Error σ) where
  monadLift
    | .ok a => pure a
    | .error e => throw e

/-- A sequence of two computations succeeds exactly if both do, the second from where the first
ends. -/
theorem bind_eq_ok_iff {σ α β : Type} {x : EStateM Error σ α} {f : α → EStateM Error σ β}
    {s t : σ} {b : β} :
    (x >>= f) s = .ok b t ↔ ∃ a r, x s = .ok a r ∧ f a r = .ok b t := by
  simp only [bind, EStateM.bind]
  cases h : x s with
  | ok a r =>
    constructor
    · intro hf
      exact ⟨a, r, rfl, hf⟩
    · rintro ⟨_, _, ⟨rfl, rfl⟩, hf⟩
      exact hf
  | error e r => simp

def Journal.note (j : Journal) (e : Event) : Journal := { j with events := j.events ++ [e] }

def Journal.keep (j : Journal) (id : Nat) (s : Statement) : Journal :=
  { j with kept := fun i => if i = id then some s else j.kept i }

@[simp] theorem Journal.kept_note (j : Journal) (e : Event) : (j.note e).kept = j.kept := rfl

@[simp] theorem Journal.kept_keep_self (j : Journal) (id : Nat) (s : Statement) :
    (j.keep id s).kept id = some s := by
  simp [Journal.keep]

theorem Journal.kept_keep_of_ne (j : Journal) {id other : Nat} (s : Statement) (h : other ≠ id) :
    (j.keep id s).kept other = j.kept other := by
  simp [Journal.keep, h]

def Work.note (e : Event) : Work Unit := modify (·.note e)

namespace Compile

/-- Work done on the way: the bound values stay as they are. -/
def ofWork {α : Type} (work : Work α) : Compile α := fun d =>
  match work d.journal with
  | .ok a j => .ok a { d with journal := j }
  | .error e j => .error e { d with journal := j }

instance : MonadLift Work Compile := ⟨ofWork⟩

def note (e : Event) : Compile Unit := modify fun d => { d with journal := d.journal.note e }

/-- Binds values to the next placeholders. -/
def bindAll (values : List Value) : Compile Unit :=
  modify fun d => { d with params := d.params ++ values }

def bindValue (value : Value) : Compile Unit := bindAll [value]

@[simp] theorem note_run (e : Event) (d : Draft) :
    note e d = .ok () { d with journal := d.journal.note e } := rfl

@[simp] theorem bindAll_run (values : List Value) (d : Draft) :
    bindAll values d = .ok () { d with params := d.params ++ values } := rfl

@[simp] theorem bindValue_run (value : Value) (d : Draft) :
    bindValue value d = .ok () { d with params := d.params ++ [value] } := rfl

/-- Goes on from the given values; gives the result with all values bound in the end. -/
def collect {α : Type} (params : List Value) (compile : Compile α) : Work (α × List Value) :=
  fun j =>
    match compile ⟨params, j⟩ with
    | .ok a d => .ok (a, d.params) d.journal
    | .error e d => .error e d.journal

end Compile

end BoundQuery
