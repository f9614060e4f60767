import BoundQuery.Proofs.Closure
import BoundQuery.Proofs.Compiled

/-! Where a violation of safety comes from. Compiling a filter raises none by itself, and an update
only where it has no filter. Any other one was raised by a handler or a sub-query and is passed on
as it is: were another error raised in its place, that one would be passed on. -/
namespace BoundQuery

def Handler.withErrors (f : Error → Error) (h : Handler) : Handler :=
  fun field operand context params =>
    let (params, result) := h field operand context params
    (params, result.mapError f)

def Registry.withErrors (f : Error → Error) (r : Registry) : Registry where
  handlers := r.handlers.map fun (name, h) => (name, h.withErrors f)

def Work.withErrors {α : Type} (f : Error → Error) (work : Work α) : Work α := fun j =>
  match work j with
  | .ok a j => .ok a j
  | .error e j => .error (f e) j

/-- The scope, with other errors raised in place of those of its handlers and sub-queries. -/
def Scope.withErrors (f : Error → Error) (scope : Scope) : Scope where
  registry := scope.registry.withErrors f
  embed ref := (scope.embed ref).withErrors f

/-- The error was raised by a handler or a sub-query and passed on: whatever were raised in its
place would be passed on likewise. -/
def Scope.PassesOn {α : Type} (scope : Scope) (work : Scope → Work α) (j : Journal) (e : Error)
    (j' : Journal) : Prop :=
  ∀ f : Error → Error, work (scope.withErrors f) j = .error (f e) j'

theorem Registry.find?_withErrors (f : Error → Error) (r : Registry) (name : String) :
    (r.withErrors f).find? name = (r.find? name).map (Handler.withErrors f) := by
  obtain ⟨handlers⟩ := r
  induction handlers with
  | nil => rfl
  | cons entry handlers ih =>
    obtain ⟨operator, h⟩ := entry
    simp only [find?, withErrors, List.map_cons, List.lookup_cons] at ih ⊢
    cases name == operator with
    | true => rfl
    | false => exact ih

theorem Except.mapError_id {ε α : Type} (x : Except ε α) : x.mapError id = x := by
  cases x <;> rfl

theorem Scope.withErrors_id (scope : Scope) : scope.withErrors id = scope := by
  have hhandler : ∀ h : Handler, h.withErrors id = h := by
    intro h
    funext field operand context params
    exact Prod.ext rfl (Except.mapError_id _)
  have hwork : ∀ {α : Type} (work : Work α), work.withErrors id = work := by
    intro α work
    funext j
    simp only [Work.withErrors]
    cases work j <;> rfl
  obtain ⟨⟨handlers⟩, embed⟩ := scope
  simp [withErrors, Registry.withErrors, hhandler, hwork]

def Error.IsSafety : Error → Prop
  | .safety _ _ => True
  | _ => False

theorem Error.OfFilter.not_isSafety {e : Error} (h : e.OfFilter) : ¬e.IsSafety := by
  cases e with
  | safety fault statement => exact h.elim
  | _ => exact id

/-- The results of a computation before and after the errors of others are replaced. An error of its
own may stay, if it is no violation of safety. -/
inductive Replaced (f : Error → Error) {σ α : Type} :
    EStateM.Result Error σ α → EStateM.Result Error σ α → Prop
  | ok (a : α) (s : σ) : Replaced f (.ok a s) (.ok a s)
  | passed (e : Error) (s : σ) : Replaced f (.error e s) (.error (f e) s)
  | own {e : Error} (safe : ¬e.IsSafety) (s : σ) : Replaced f (.error e s) (.error e s)

theorem Replaced.error_of_safety {f : Error → Error} {σ α : Type} {e : Error} {s : σ}
    {r : EStateM.Result Error σ α} (h : Replaced f (.error e s) r) (he : e.IsSafety) :
    r = .error (f e) s := by
  cases h with
  | passed => rfl
  | own safe => exact absurd he safe

def Replaces (f : Error → Error) {σ α : Type} (c c' : EStateM Error σ α) : Prop :=
  ∀ s, Replaced f (c s) (c' s)

namespace Replaces

variable {f : Error → Error} {σ α β : Type} {c c' : EStateM Error σ α}

theorem pure (a : α) : Replaces f (Pure.pure a : EStateM Error σ α) (Pure.pure a) :=
  fun s => .ok a s

theorem throw {e : Error} (h : ¬e.IsSafety) :
    Replaces f (MonadExcept.throw e : EStateM Error σ α) (MonadExcept.throw e) := fun s => .own h s

theorem bind {g g' : α → EStateM Error σ β} (hc : Replaces f c c')
    (hg : ∀ a, Replaces f (g a) (g' a)) : Replaces f (c >>= g) (c' >>= g') := by
  intro s
  have hs := hc s
  simp only [Bind.bind, EStateM.bind]
  generalize c s = r, c' s = r' at hs
  cases hs with
  | ok a t => exact hg a t
  | passed e t => exact .passed e t
  | own safe t => exact .own safe t

theorem ofExcept {x : Except Error α} (h : ∀ e, x = .error e → ¬e.IsSafety) :
    Replaces f (liftM x : EStateM Error σ α) (liftM x) := by
  cases x with
  | ok a => exact pure a
  | error e => exact throw (h e rfl)

theorem withErrors (f : Error → Error) (work : Work α) : Replaces f work (work.withErrors f) := by
  intro j
  simp only [Work.withErrors]
  cases work j with
  | ok a t => exact .ok a t
  | error e t => exact .passed e t

theorem ofWork {work work' : Work α} (h : Replaces f work work') :
    Replaces f (liftM work : Compile α) (liftM work') := by
  intro d
  have hd := h d.journal
  show Replaced f (Compile.ofWork work d) (Compile.ofWork work' d)
  unfold Compile.ofWork
  generalize work d.journal = r, work' d.journal = r' at hd
  cases hd with
  | ok a j => exact .ok a _
  | passed e j => exact .passed e _
  | own safe j => exact .own safe _

theorem collect {c c' : Compile α} (hc : Replaces f c c') (params : List Value) :
    Replaces f (Compile.collect params c) (Compile.collect params c') := by
  intro j
  have hj := hc ⟨params, j⟩
  unfold Compile.collect
  generalize c ⟨params, j⟩ = r, c' ⟨params, j⟩ = r' at hj
  cases hj with
  | ok a d => exact .ok _ _
  | passed e d => exact .passed e _
  | own safe d => exact .own safe _

theorem run (f : Error → Error) (h : Handler) (field operand : Value) (context : String) :
    Replaces f (h.run field operand context) ((h.withErrors f).run field operand context) := by
  intro d
  simp only [Handler.run, Handler.withErrors]
  obtain ⟨params, result⟩ := h field operand context d.params
  cases result with
  | ok clause => exact .ok clause _
  | error e => exact .passed e _

theorem congruence (f : Error → Error) : Compile.Congruence fun _ c c' => Replaces f c c' where
  pure := pure
  bind := bind
  throw he := throw he.not_isSafety
  bindAll _ _ := .ok _ _
  note _ _ := .ok _ _
  bound hf d := hf d.params d

end Replaces

theorem Scope.related_withErrors (f : Error → Error) (scope : Scope) (d : Demand) :
    scope.Related (fun _ c c' => Replaces f c c') (scope.withErrors f) d := by
  cases d with
  | operator field name operand =>
    simp only [Scope.Related, withErrors, Registry.find?_withErrors]
    cases scope.registry.find? name with
    | none => exact .none
    | some h => exact .some fun context => Replaces.run f h field operand context
  | subquery ref => exact .ofWork (.withErrors f (scope.embed ref))

theorem Filter.collect_replaces (f : Error → Error) (scope : Scope) (context : String)
    (tree : Value) (params : List Value) :
    Replaces f (Compile.collect params (compile scope context tree))
      (Compile.collect params (compile (scope.withErrors f) context tree)) :=
  (compile_related (Replaces.congruence f)
    (fun d _ => scope.related_withErrors f d) context).collect params

theorem Value.stored_fails {v : Value} {e : Error} (h : v.stored = .error e) : e = .unfit := by
  have hjson : ∀ w : Value, (do return .str (← w.json) : Except Error Value) = .error e →
      e = .unfit := by
    intro w hw
    rcases except_bind_eq_error hw with hw | ⟨t, -, hw⟩
    · exact json_fails w hw
    · cases hw
  cases v with
  | list items => exact hjson (.list items) h
  | tuple items => exact hjson (.tuple items) h
  | map es => exact hjson (.map es) h
  | _ => cases h

namespace Update

variable {e : Error}

theorem fieldAssignments_fails {operator : UpdateOperator} {es : Entries}
    (h : fieldAssignments operator es = .error e) : e = .unfit := by
  induction es with
  | nil => cases h
  | cons entry es ih =>
    obtain ⟨field, v⟩ := entry
    rcases except_bind_eq_error h with h | ⟨bound, -, h⟩
    · cases operator with
      | put => exact Value.stored_fails h
      | _ => cases h
    · rcases except_bind_eq_error h with h | ⟨rest, -, h⟩
      · exact ih h
      · cases h

theorem operationAssignments_fails {name : String} {operand : Value}
    (h : operationAssignments name operand = .error e) : ¬e.IsSafety := by
  unfold operationAssignments at h
  split at h
  · cases h
    exact id
  · rcases except_bind_eq_error h with h | ⟨fields, -, h⟩
    · cases operand with
      | list _ => cases h
      | tuple _ => cases h
      | map _ => cases h
      | _ =>
        cases h
        exact id
    · cases h
  · split at h
    · obtain rfl := fieldAssignments_fails h
      exact id
    · cases h
      exact id

theorem assignments_fails {operations : Entries} (h : assignments operations = .error e) :
    ¬e.IsSafety := by
  induction operations with
  | nil => cases h
  | cons operation operations ih =>
    rcases except_bind_eq_error h with h | ⟨first, -, h⟩
    · exact operationAssignments_fails h
    · rcases except_bind_eq_error h with h | ⟨rest, -, h⟩
      · exact ih h
      · cases h

theorem caseParams_fails {idField column : Value} {rows : List Entries}
    (h : caseParams idField column rows = .error e) : e = .unfit := by
  induction rows with
  | nil => cases h
  | cons row rows ih =>
    unfold caseParams at h
    split at h
    · rcases except_bind_eq_error h with h | ⟨stored, -, h⟩
      · exact Value.stored_fails h
      · rcases except_bind_eq_error h with h | ⟨rest, -, h⟩
        · exact ih h
        · cases h
    · exact ih h

theorem cases_fails {idField : Value} {rows : List Entries} {columns : List Value}
    (h : cases idField rows columns = .error e) : e = .unfit := by
  induction columns with
  | nil => cases h
  | cons column columns ih =>
    rcases except_bind_eq_error h with h | ⟨params, -, h⟩
    · exact caseParams_fails h
    · rcases except_bind_eq_error h with h | ⟨rest, -, h⟩
      · exact ih h
      · cases h

end Update

section Statements

variable {f : Error → Error} {scope : Scope}

theorem Replaces.noted {α : Type} (e : Event) (a : α) :
    Replaces f (do Work.note e; return a : Work α) (do Work.note e; return a) :=
  bind (fun _ => .ok _ _) fun _ => pure a

theorem Delete.compile_replaces {d : Delete} (h : d.filter.isEmpty = false) :
    Replaces f (d.compile scope) (d.compile (scope.withErrors f)) := by
  unfold Delete.compile
  rw [if_neg (by simp [h]), if_neg (by simp [h])]
  exact (Filter.collect_replaces f scope _ _ _).bind fun _ => .noted _ _

theorem Update.compile_replaces {u : Update} (h : u.filter.isEmpty = false) :
    Replaces f (u.compile scope) (u.compile (scope.withErrors f)) := by
  have hoperators : ∀ operations,
      Replaces f (u.operatorUpdate scope operations)
        (u.operatorUpdate (scope.withErrors f) operations) := by
    intro operations
    refine (Replaces.ofExcept fun e he => assignments_fails he).bind fun a => ?_
    split
    · exact .throw nofun
    · exact (Filter.collect_replaces f scope _ _ _).bind fun _ => .pure _
  have hrows : ∀ rows,
      Replaces f (u.bulkUpdate scope rows) (u.bulkUpdate (scope.withErrors f) rows) := by
    intro rows
    unfold Update.bulkUpdate
    dsimp only
    split
    · exact .throw nofun
    · split
      · exact .throw nofun
      · refine (Replaces.ofExcept fun e he => ?_).bind fun a => ?_
        · obtain rfl := cases_fails he
          exact nofun
        · exact (Filter.collect_replaces f scope _ _ _).bind fun _ => .pure _
  unfold Update.compile
  rw [if_neg (by simp [h]), if_neg (by simp [h])]
  dsimp only
  split
  · exact (hoperators _).bind fun _ => .noted _ _
  · exact (hrows _).bind fun _ => .noted _ _
  · exact (Replaces.throw id).bind fun _ => .noted _ _

end Statements

end BoundQuery
