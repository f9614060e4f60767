import BoundQuery.Proofs.Registration

/-! A filter only appends to the values that are bound before it. They have no part in what comes of
it, be it a condition or an error, and neither has what was compiled before. Without handlers the
path has a part in errors only. -/
namespace BoundQuery

/-- What comes of a computation, and the values that are bound in the end, be it by a failure. -/
def Compile.ending {α : Type} (x : Compile α) (params : List Value) (j : Journal) :
    Except Error α × List Value :=
  match x ⟨params, j⟩ with
  | .ok a d => (.ok a, d.params)
  | .error e d => (.error e, d.params)

/-- The handler appends values and does nothing else to those that are bound already, which have no
part in what it gives. -/
def Handler.OnlyAppends (h : Handler) : Prop :=
  ∀ field operand context params, h field operand context params =
    (params ++ (h field operand context []).1, (h field operand context []).2)

theorem Handler.startsWith_onlyAppends : Handler.startsWith.OnlyAppends :=
  fun _ _ _ _ => rfl

/-- The errors are the same, but for a path that starts with `path` in the first, and with `path'`
in the second. -/
inductive Error.Moved (path path' : String) : Error → Error → Prop
  | same (e : Error) : Moved path path' e e
  | malformed (fault : Fault) (rest : String) : Moved path path'
      (.malformed fault (.str (path ++ rest))) (.malformed fault (.str (path' ++ rest)))
  | unsupported (field name : Value) (rest : String) : Moved path path'
      (.unsupported field name (.str (path ++ rest)))
      (.unsupported field name (.str (path' ++ rest)))

theorem Error.Moved.eq {path : String} {e e' : Error} (h : Moved path path e e') : e = e' := by
  cases h <;> rfl

def Filter.Below (path path' at₁ at₂ : String) : Prop :=
  ∃ rest, at₁ = path ++ rest ∧ at₂ = path' ++ rest

namespace Catalogue

variable (c : Catalogue) {α β : Type} {front : List Value} {path path' : String}

/-- The first draft has further values in front of those of the second, and the journals agree. -/
structure Ahead (front : List Value) (d d' : Draft) : Prop where
  params : d.params = front ++ d'.params
  journal : c.Agree d.journal d'.journal

inductive EndAlike (front : List Value) (path path' : String) :
    EStateM.Result Error Draft α → EStateM.Result Error Draft α → Prop
  | ok (a : α) {d d' : Draft} : c.Ahead front d d' → EndAlike front path path' (.ok a d) (.ok a d')
  | error {e e' : Error} {d d' : Draft} : e.Moved path path' e' → c.Ahead front d d' →
      EndAlike front path path' (.error e d) (.error e' d')

/-- From all drafts that differ so, the computations end in the same way. -/
def Parallel (front : List Value) (path path' : String) (α : Type) (x x' : Compile α) : Prop :=
  ∀ d d', c.Ahead front d d' → c.EndAlike front path path' (x d) (x' d')

variable {c}

theorem Parallel.bind {x x' : Compile α} {f f' : α → Compile β}
    (hx : c.Parallel front path path' α x x')
    (hf : ∀ a, c.Parallel front path path' β (f a) (f' a)) :
    c.Parallel front path path' β (x >>= f) (x' >>= f') := by
  intro d d' hd
  have hfirst := hx d d' hd
  simp only [Bind.bind, EStateM.bind]
  generalize x d = r at hfirst ⊢
  generalize x' d' = r' at hfirst ⊢
  cases hfirst with
  | ok a hahead => exact hf a _ _ hahead
  | error hmoved hahead => exact .error hmoved hahead

theorem parallel_correspondence (c : Catalogue) (front : List Value) (path path' : String) :
    Compile.Correspondence (Filter.Below path path') (c.Parallel front path path') where
  step := by
    rintro _ _ name ⟨rest, rfl, rfl⟩
    exact ⟨rest ++ "->" ++ name, by simp [Filter.step, String.append_assoc],
      by simp [Filter.step, String.append_assoc]⟩
  pure a _ _ hd := .ok a hd
  bind := .bind
  unfit _ _ hd := .error (.same _) hd
  malformed := by
    rintro α _ _ fault ⟨rest, rfl, rfl⟩ d d' hd
    exact .error (.malformed fault rest) hd
  unsupported := by
    rintro α _ _ field name ⟨rest, rfl, rfl⟩ d d' hd
    exact .error (.unsupported field name rest) hd
  bindAll values d d' hd := by
    have hparams : d.params ++ values = front ++ (d'.params ++ values) := by
      rw [hd.params, List.append_assoc]
    exact .ok () ⟨hparams, hd.journal⟩
  note _ _ _ _ hd := .ok () ⟨hd.params, hd.journal⟩

/-- What was compiled before has no part in what comes of a sub-query. -/
theorem Uniform.parallel {w : Work α} (hw : c.Uniform w) (front : List Value)
    (path path' : String) : c.Parallel front path path' α (liftM w) (liftM w) := by
  intro d d' hd
  have hlift : (liftM w : Compile α) = Compile.ofWork w := rfl
  have hafter := hd.journal.grows (hw.keeps d.journal) (hw.keeps d'.journal)
  simp only [after] at hafter
  simp only [hlift, Compile.ofWork]
  rcases Work.outcome_eq_cases (hw.outcome_eq hd.journal) with
    ⟨a, k, k', hj, hj'⟩ | ⟨e, k, k', hj, hj'⟩
  · rw [hj, hj'] at hafter ⊢
    exact .ok a ⟨hd.params, hafter⟩
  · rw [hj, hj'] at hafter ⊢
    exact .error (.same e) ⟨hd.params, hafter⟩

/-- At one path, a handler that only appends does the same. -/
theorem parallel_handler {h : Handler} (hh : h.OnlyAppends) (field operand : Value)
    (place : String) : c.Parallel front path path' Value (h.run field operand place)
      (h.run field operand place) := by
  intro d d' hd
  simp only [Handler.run]
  rw [hh field operand place d.params, hh field operand place d'.params, hd.params,
    List.append_assoc]
  cases (h field operand place []).2 with
  | ok clause => exact .ok clause ⟨rfl, hd.journal⟩
  | error e => exact .error (.same e) ⟨rfl, hd.journal⟩

/-- Values in front and what was compiled before have no part in what comes of a filter, and
neither has the path if no handler is asked. -/
theorem compile_parallel {id : RegistryId} {tree : Value} (front : List Value)
    (hhandlers : ∀ name ∈ Filter.applied tree, ∀ h, (c.registry id).find? name = some h →
      h.OnlyAppends ∧ path = path') :
    c.Parallel front path path' String (Filter.compile (c.scope id) path tree)
      (Filter.compile (c.scope id) path' tree) := by
  refine Filter.compile_corresponds (c.parallel_correspondence front path path') (fun d hd => ?_)
    ⟨"", String.append_empty.symm, String.append_empty.symm⟩
  cases d with
  | operator field name operand =>
    simp only [Scope.Corresponds, scope]
    cases hfind : (c.registry id).find? name with
    | none => exact .none
    | some h =>
      obtain ⟨happends, rfl⟩ := hhandlers name (Filter.mem_applied hd) h hfind
      refine .some ?_
      rintro _ _ ⟨rest, rfl, rfl⟩
      exact parallel_handler happends field operand _
  | subquery ref => exact (c.embed_uniform ref.id).parallel front path path'

theorem Parallel.ending {x x' : Compile α} (h : c.Parallel front path path' α x x')
    (params : List Value) {j j' : Journal} (hj : c.Agree j j') :
    (x.ending (front ++ params) j).2 = front ++ (x'.ending params j').2 ∧
    (∀ a, (x.ending (front ++ params) j).1 = .ok a ↔ (x'.ending params j').1 = .ok a) ∧
    ∀ e, (x.ending (front ++ params) j).1 = .error e →
      ∃ e', (x'.ending params j').1 = .error e' ∧ e.Moved path path' e' := by
  have hends := h ⟨front ++ params, j⟩ ⟨params, j'⟩ ⟨rfl, hj⟩
  unfold Compile.ending
  generalize x ⟨front ++ params, j⟩ = r at hends ⊢
  generalize x' ⟨params, j'⟩ = r' at hends ⊢
  cases hends with
  | ok a hahead => exact ⟨hahead.params, fun _ => Iff.rfl, nofun⟩
  | error hmoved hahead =>
    refine ⟨hahead.params, fun a => ⟨nofun, nofun⟩, ?_⟩
    rintro _ ⟨⟩
    exact ⟨_, rfl, hmoved⟩

end Catalogue

namespace Filter

/-- Handlers that only append granted, what comes of a filter is the same whatever is bound before
it, and the values of the filter are appended to that, also by a filter that fails. From one journal
to the other, statements may have been kept for sub-queries that can be compiled. Without handlers
neither a condition nor the values depend on the path, and an error does in its path only. -/
theorem compile_only_appends (c : Catalogue) (id : RegistryId) (tree : Value) (context : String)
    (hhandlers : ∀ name ∈ applied tree, ∀ h, (c.registry id).find? name = some h → h.OnlyAppends) :
    (∀ params j j', c.Agree j j' →
      ((compile (c.scope id) context tree).ending params j).1 =
        ((compile (c.scope id) context tree).ending [] j').1 ∧
      ((compile (c.scope id) context tree).ending params j).2 =
        params ++ ((compile (c.scope id) context tree).ending [] j').2) ∧
    ((∀ name ∈ applied tree, (c.registry id).find? name = none) →
      ∀ context' params j j', c.Agree j j' →
        ((compile (c.scope id) context tree).ending params j).2 =
          ((compile (c.scope id) context' tree).ending params j').2 ∧
        (∀ text, ((compile (c.scope id) context tree).ending params j).1 = .ok text ↔
          ((compile (c.scope id) context' tree).ending params j').1 = .ok text) ∧
        ∀ e, ((compile (c.scope id) context tree).ending params j).1 = .error e →
          ∃ e', ((compile (c.scope id) context' tree).ending params j').1 = .error e' ∧
            e.Moved context context' e') := by
  constructor
  · intro params j j' hj
    have hparallel : c.Parallel params context context String (compile (c.scope id) context tree)
        (compile (c.scope id) context tree) :=
      Catalogue.compile_parallel params fun name hname h hfind =>
        ⟨hhandlers name hname h hfind, rfl⟩
    obtain ⟨hparams, hok, herror⟩ := hparallel.ending [] hj
    rw [List.append_nil] at hparams hok herror
    refine ⟨?_, hparams⟩
    cases houtcome : ((compile (c.scope id) context tree).ending params j).1 with
    | ok text => exact ((hok text).mp houtcome).symm
    | error e =>
      obtain ⟨e', he', hmoved⟩ := herror e houtcome
      rw [he', hmoved.eq]
  · intro hnone context' params j j' hj
    have hparallel : c.Parallel [] context context' String (compile (c.scope id) context tree)
        (compile (c.scope id) context' tree) :=
      Catalogue.compile_parallel [] fun name hname h hfind =>
        absurd ((hnone name hname).symm.trans hfind) (Option.some_ne_none h).symm
    exact hparallel.ending params hj

def prefixedAdults : Catalogue where
  registries := [⟨[("$prefix", .startsWith)]⟩]
  sources := [.builder (.select
    { table := "users", filter := .single [(.str "age", .map [(.str "$gt", .int 17)])] })]
  targets := [.source 0]

/-- The last condition fails, with values bound by a handler, a sub-query and a list before it. -/
def unknownLast : Value :=
  .map [(.str "name", .map [(.str "$prefix", .str "A")]),
    (.str "owner", .subquery ⟨0, "SubQuery(SELECT)"⟩),
    (.str "size", .map [(.str "$in", .list [.int 1, .int 2]), (.str "$near", .int 3)])]

def noListBelow : Value :=
  .map [(.str "a", .int 4), (.str "$or", .list [.map [(.str "b", .map [(.str "$nin", .int 5)])]])]

/-- What is bound before stays in front of the values that the filter has bound when it fails, and
only the path of the error changes with the path of the filter. -/
theorem unknownLast_only_appends :
    (compile (prefixedAdults.scope 0) "UPDATE" unknownLast).ending [.int 8] {} =
      (.error (.unsupported (.str "size") (.str "$near") (.str "UPDATE->size")),
        [.int 8, .str "A%", .int 17, .int 1, .int 2]) ∧
    ((compile (prefixedAdults.scope 0) "SELECT" noListBelow).ending [.int 8] {}).2 =
      [.int 8, .int 4] ∧
    ∃ e, ((compile (prefixedAdults.scope 0) "SELECT" noListBelow).ending [.int 8] {}).1 = .error e ∧
      Error.Moved "SELECT" "UPDATE" e (.malformed (.listExpected "$nin" (.str "b") "int")
        (.str "UPDATE->$or[0]->b")) := by
  have happlied : ∀ name ∈ applied unknownLast, ∀ h,
      (prefixedAdults.registry 0).find? name = some h → h.OnlyAppends := by
    intro name _ h hfind
    simp only [prefixedAdults, Catalogue.registry, Registry.find?, List.getElem?_cons_zero,
      Option.getD_some, List.lookup_cons, List.lookup_nil] at hfind
    split at hfind
    · obtain rfl := Option.some.inj hfind
      exact Handler.startsWith_onlyAppends
    · cases hfind
  have hnone : ∀ name ∈ applied noListBelow, (prefixedAdults.registry 0).find? name = none := by
    decide
  have hfirst := (compile_only_appends prefixedAdults 0 unknownLast "UPDATE" happlied).1
    [.int 8] {} {} (fun _ _ => rfl)
  have hunasked : ∀ name ∈ applied noListBelow, ∀ h,
      (prefixedAdults.registry 0).find? name = some h → h.OnlyAppends := by
    intro name hname h hfind
    rw [hnone name hname] at hfind
    cases hfind
  have hsecond := (compile_only_appends prefixedAdults 0 noListBelow "SELECT" hunasked).2 hnone
    "UPDATE" [.int 8] {} {} (fun _ _ => rfl)
  have hfails : ((compile (prefixedAdults.scope 0) "SELECT" noListBelow).ending [.int 8] {}).1 =
      .error (.malformed (.listExpected "$nin" (.str "b") "int") (.str "SELECT->$or[0]->b")) := rfl
  obtain ⟨e', he', hmoved⟩ := hsecond.2.2 _ hfails
  obtain rfl := Except.error.inj he'
  exact ⟨Prod.ext (hfirst.1.trans rfl) (hfirst.2.trans rfl), hsecond.1.trans rfl, _, hfails, hmoved⟩

end Filter

end BoundQuery
