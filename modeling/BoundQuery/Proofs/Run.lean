import BoundQuery.Workspace

/-! What calls leave behind. A builder or a workspace goes on from where a call has left it,
whether the call succeeded or failed; a run is a row of calls. -/
namespace BoundQuery

def after {σ α : Type} (c : EStateM Error σ α) (s : σ) : σ :=
  match c s with
  | .ok _ t => t
  | .error _ t => t

section After

variable {σ α β : Type} {s t : σ}

@[simp] theorem after_pure (a : α) : after (pure a : EStateM Error σ α) s = s := rfl

@[simp] theorem after_throw (e : Error) : after (throw e : EStateM Error σ α) s = s := rfl

@[simp] theorem after_set : after (set t : EStateM Error σ PUnit) s = t := rfl

@[simp] theorem after_modify (f : σ → σ) : after (modify f : EStateM Error σ PUnit) s = f s := rfl

@[simp] theorem after_get_bind (f : σ → EStateM Error σ α) :
    after (get >>= f) s = after (f s) s := rfl

@[simp] theorem after_modify_bind (f : σ → σ) (g : PUnit → EStateM Error σ α) :
    after (modify f >>= g) s = after (g ⟨⟩) (f s) := rfl

/-- Reading fails without a change, or goes on. -/
theorem after_read_keeps {I : σ → Prop} {x : Except Error α} {f : α → EStateM Error σ β} (hs : I s)
    (h : ∀ a, x = .ok a → I (after (f a) s)) : I (after (liftM x >>= f) s) := by
  cases x with
  | ok a => exact h a rfl
  | error e => exact hs

end After

namespace Builder

theorem after_change {σ : Type} (wrap : σ → Builder) (s : σ) (c : Change σ Unit) (b : Builder) :
    after (fun _ => change wrap s c) b = wrap (after c s) := by
  simp only [after, change]
  cases c s <;> rfl

def run (calls : List Call) (b : Builder) : Builder :=
  calls.foldl (fun b call => after (apply call) b) b

end Builder

namespace Session

inductive Action where
  | addRegistry
  | register (id : RegistryId) (operator : String) (handler : Option Handler)
  | addStatement (s : Statement)
  | start (kind : StatementKind) (table : Value) (registry : RegistryId) (idField pipeline : Value)
  | wrap (t : Target)
  | call (id : Nat) (c : Builder.Call)
  | compile (id : Nat)
  | embed (id : Nat)
  | remembered (id : Nat)

def perform : Action → Workspace → Workspace
  | .addRegistry => after addRegistry
  | .register id operator handler => after (register id operator handler)
  | .addStatement s => after (addSource (.fixed s))
  | .start kind table registry idField pipeline =>
    after (start kind table registry idField pipeline)
  | .wrap t => after (wrap t)
  | .call id c => after (call id c)
  | .compile id => after (compile id)
  | .embed id => after (embed id)
  | .remembered id => after (remembered id)

def run (actions : List Action) (w : Workspace) : Workspace :=
  actions.foldl (fun w action => perform action w) w

/-- What every action keeps holds after all of them. -/
theorem run_keeps {I : Workspace → Prop} {actions : List Action} {w : Workspace} (hw : I w)
    (h : ∀ action ∈ actions, ∀ w, I w → I (perform action w)) : I (run actions w) := by
  induction actions generalizing w with
  | nil => exact hw
  | cons action actions ih =>
    have haction := h action List.mem_cons_self w hw
    exact ih haction fun a ha => h a (List.mem_cons_of_mem _ ha)

theorem after_call {w : Workspace} {id : Nat} {b : Builder} (h : w.sources[id]? = some (.builder b))
    (c : Builder.Call) : after (call id c) w =
      { w with sources := w.sources.set id (.builder (after (Builder.apply c) b)) } := by
  simp only [after, call, h]
  cases Builder.apply c b <;> rfl

/-- A call on what is no builder changes nothing. -/
theorem after_call_of_ne {w : Workspace} {id : Nat}
    (h : ∀ b, w.sources[id]? ≠ some (.builder b)) (c : Builder.Call) : after (call id c) w = w := by
  unfold after call
  cases hs : w.sources[id]? with
  | none => rfl
  | some source =>
    cases source with
    | builder b => exact absurd hs (h b)
    | fixed s => rfl

/-- Compiling changes nothing but the journal. -/
theorem after_ofWork {α : Type} (work : Catalogue → Work α) (w : Workspace) :
    (after (ofWork work) w).toCatalogue = w.toCatalogue := by
  unfold after ofWork
  cases work w.toCatalogue w.journal <;> rfl

end Session

end BoundQuery
