import BoundQuery.Proofs.Nesting

/-! What is kept for a sub-query, over runs in which builders change, sub-queries are compiled and
read, and filters are translated. Text and values that are kept are always those of one statement. -/
namespace BoundQuery

def Scope.replace (scope : Scope) (id : Nat) (work : Work Statement) : Scope :=
  { scope with embed := fun ref => if ref.id = id then work else scope.embed ref }

namespace Session

/-- What can be done in a run; a filter is also translated by itself, after values that are bound
already. -/
inductive Step where
  | act (action : Action)
  | translate (registry : RegistryId) (params : List Value) (context : String) (tree : Value)

def Step.perform : Step → Workspace → Workspace
  | act action => Session.perform action
  | translate registry params context tree =>
    after (draft registry params fun scope => Filter.compile scope context tree)

def steps (row : List Step) (w : Workspace) : Workspace :=
  row.foldl (fun w step => step.perform w) w

theorem steps_concat (row : List Step) (step : Step) (w : Workspace) :
    steps (row ++ [step]) w = step.perform (steps row w) := by
  simp [steps]

def Step.work (c : Catalogue) : Step → Work Unit
  | act (.compile id) => discard (c.compileSource (c.embed c.depth) id)
  | act (.embed id) => discard (c.embed c.depth id)
  | act (.remembered id) => discard (Catalogue.remembered (c.embed c.depth) id)
  | act _ => pure ()
  | translate registry params context tree =>
    discard (Compile.collect params (Filter.compile (c.scope registry) context tree))

section Journal

variable {α : Type}

theorem after_discard (work : Work α) (j : Journal) : after (discard work) j = after work j := by
  have hmap : discard work = work >>= fun _ => pure () := map_eq_pure_bind _ work
  simp only [hmap, after, Bind.bind, EStateM.bind]
  cases work j <;> rfl

theorem ofWork_eq_ok_iff {work : Catalogue → Work α} {w w' : Workspace} {a : α} :
    ofWork work w = .ok a w' ↔
      ∃ j, work w.toCatalogue w.journal = .ok a j ∧ w' = { w with journal := j } := by
  unfold ofWork
  cases work w.toCatalogue w.journal with
  | ok b j => simp [eq_comm]
  | error e j => simp

theorem journal_after_ofWork (work : Catalogue → Work α) (w : Workspace) :
    (after (ofWork work) w).journal = after (discard (work w.toCatalogue)) w.journal := by
  rw [after_discard]
  unfold after ofWork
  cases work w.toCatalogue w.journal <;> rfl

theorem journal_after_draft (registry : RegistryId) (params : List Value) (f : Scope → Compile α)
    (w : Workspace) : (after (draft registry params f) w).journal =
      after (discard (Compile.collect params (f (w.scope registry)))) w.journal := by
  rw [after_discard]
  unfold after draft Compile.collect
  cases f (w.scope registry) ⟨params, w.journal⟩ <;> rfl

/-- What a step does not compile it does not keep. -/
theorem Step.kept_perform (step : Step) (w : Workspace) : (step.perform w).journal.kept =
    (after (step.work w.toCatalogue) w.journal).kept := by
  let Same (v : Workspace) : Prop := v.journal.kept = w.journal.kept
  cases step with
  | act action =>
    cases action with
    | addRegistry => rfl
    | register id operator handler =>
      change Same (after (get >>= _) w)
      rw [after_get_bind]
      exact after_read_keeps (I := Same) rfl fun _ _ => rfl
    | addStatement s => rfl
    | start kind table registry idField pipeline =>
      exact after_read_keeps (I := Same) rfl fun _ _ => rfl
    | wrap t => rfl
    | call id c =>
      by_cases hbuilder : ∃ b, w.sources[id]? = some (.builder b)
      · obtain ⟨b, hb⟩ := hbuilder
        exact congrArg (fun v => v.journal.kept) (after_call hb c)
      · exact congrArg (fun v => v.journal.kept) (after_call_of_ne (fun b hb => hbuilder ⟨b, hb⟩) c)
    | compile id => exact congrArg Journal.kept (journal_after_ofWork _ w)
    | embed id => exact congrArg Journal.kept (journal_after_ofWork _ w)
    | remembered id => exact congrArg Journal.kept (journal_after_ofWork _ w)
  | translate registry params context tree =>
    exact congrArg Journal.kept (journal_after_draft registry params _ w)

end Journal

theorem Step.work_keeps (step : Step) (c : Catalogue) : c.Keeps (step.work c) := by
  have hR := c.keeps_closed.congruence
  have hembed := c.embed_keeps c.depth
  have hdiscard {α : Type} {work : Work α} (h : c.Keeps work) : c.Keeps (discard work) :=
    fun j => after_discard work j ▸ h j
  cases step with
  | act action =>
    cases action with
    | compile id =>
      exact hdiscard (c.compileSource_related hR id fun inner _ => ⟨rfl, hembed inner⟩).2
    | embed id => exact hdiscard (hembed id)
    | remembered id => exact hdiscard (c.remembered_keeps (hembed id))
    | _ => exact c.keeps_closed.pure ()
  | translate registry params context tree =>
    have hbeside : (c.scope registry).Beside (fun _ v v' => v = v' ∧ c.Keeps v) (c.scope registry)
        (Filter.demands tree) := ⟨rfl, fun ref _ => ⟨rfl, hembed ref.id⟩⟩
    exact hdiscard (Filter.collect_related hR hbeside context params).2

/-- A step keeps nothing for a sub-query but what the sub-query gives in the state before it. -/
theorem Step.perform_grows (step : Step) (w : Workspace) :
    w.Grows w.journal (step.perform w).journal := by
  intro id
  rw [step.kept_perform w]
  exact step.work_keeps w.toCatalogue w.journal id

section Compiled

variable {w : Workspace} {id : Nat} {p s : Statement}

theorem ofWork_returns_iff {α : Type} (work : Catalogue → Work α) {a : α}
    (h : (work w.toCatalogue).Steady) :
    (∃ w', ofWork work w = .ok a w') ↔ (work w.toCatalogue).Returns a := by
  rw [h.returns_iff w.journal]
  constructor
  · rintro ⟨w', hw'⟩
    obtain ⟨j, hj, -⟩ := ofWork_eq_ok_iff.mp hw'
    exact ⟨j, hj⟩
  · rintro ⟨j, hj⟩
    exact ⟨_, ofWork_eq_ok_iff.mpr ⟨j, hj, rfl⟩⟩

/-- A sub-query is compiled where its source is, and gives the same statement in parentheses. -/
theorem embed_eq_ok_iff : (w.embed w.depth id).Returns p ↔
    ∃ source s, w.targets[id]? = some (.source source) ∧ (∃ w', compile source w = .ok s w') ∧
      p = ⟨"(" ++ s.sql ++ ")", s.params⟩ := by
  have hsteady (source : Nat) : (w.compileSource (w.embed w.depth) source).Steady :=
    w.compileSource_related Work.sameResult_congruence source fun inner _ =>
      w.embed_steady w.depth inner
  rw [w.embed_depth_returns_iff]
  refine exists_congr fun source => exists_congr fun s => and_congr_right fun _ => ?_
  exact and_congr_left fun _ =>
    (ofWork_returns_iff (fun c => c.compileSource (c.embed c.depth) source) (hsteady source)).symm

/-- What is kept after a run was compiled in one step of it, and it is the statement that the
source had then. By induction on the run, from its end. -/
theorem kept_origin {row : List Step} (h : (steps row {}).journal.kept id = some p) :
    ∃ before step since source s, row = before ++ step :: since ∧
      (steps before {}).targets[id]? = some (.source source) ∧
      (∃ w, compile source (steps before {}) = .ok s w) ∧
      p = ⟨"(" ++ s.sql ++ ")", s.params⟩ ∧
      (steps (before ++ [step]) {}).journal.kept id = some p := by
  induction row using List.reverseRecOn with
  | nil => cases h
  | append_singleton row last ih =>
    have hgrows := last.perform_grows (steps row {}) id
    rw [← steps_concat, h] at hgrows
    rcases hgrows with hsame | ⟨t, hreturns, ht⟩
    · obtain ⟨before, step, since, source, s, rfl, horigin⟩ := ih hsame.symm
      exact ⟨before, step, since ++ [last], source, s, by simp, horigin⟩
    · obtain rfl := Option.some.inj ht
      obtain ⟨source, s, htarget, hcompiles, hp⟩ := embed_eq_ok_iff.mp hreturns
      exact ⟨row, last, [], source, s, rfl, htarget, hcompiles, hp, h⟩

/-- While a sub-query cannot be compiled, no step changes what is kept for it. -/
theorem kept_of_embed_error {e : Error} {w' : Workspace} (h : embed id w = .error e w')
    (step : Step) : (step.perform w).journal.kept id = w.journal.kept id := by
  rcases step.perform_grows w id with hsame | ⟨s, hreturns, -⟩
  · exact hsame
  · obtain ⟨v, hv⟩ := (ofWork_returns_iff (fun c => c.embed c.depth id)
      (w.embed_steady w.depth id)).mpr hreturns
    exact absurd (h.symm.trans hv) nofun

theorem kept_of_remembered {w' : Workspace} (h : remembered id w = .ok p w') :
    w'.journal.kept id = some p := by
  obtain ⟨j, hj, rfl⟩ := ofWork_eq_ok_iff.mp h
  cases hkept : w.journal.kept id with
  | none =>
    rw [Catalogue.remembered_of_none hkept] at hj
    obtain ⟨source, s, l, -, -, hkeep⟩ := Catalogue.nested_eq_ok_iff.mp hj
    exact (congrFun (Catalogue.kept_of_keep hkeep) id).trans (Journal.kept_keep_self l id p)
  | some t =>
    rw [Catalogue.remembered_of_some hkept] at hj
    obtain ⟨rfl, rfl⟩ := hj
    exact hkept

theorem remembered_of_kept (h : w.journal.kept id = some p) : remembered id w = .ok p w :=
  ofWork_eq_ok_iff.mpr ⟨w.journal, Catalogue.remembered_of_some h, rfl⟩

end Compiled

section Spared

def Step.Spares (id : Nat) (w : Workspace) : Step → Prop
  | act (.compile source) => ∀ inner, w.Asks source inner → ¬ w.Within id inner
  | act (.embed other) => ¬ w.Within id other
  | act (.remembered other) => (w.journal.kept other).isSome ∨ ¬ w.Within id other
  | translate _ _ _ tree => ∀ ref, .subquery ref ∈ Filter.demands tree → ¬ w.Within id ref.id
  | act _ => True

def Spares (id : Nat) : List Step → Workspace → Prop
  | [], _ => True
  | step :: row, w => step.Spares id w ∧ Spares id row (step.perform w)

theorem Step.Spares.kept {id : Nat} {w : Workspace} {step : Step} (h : step.Spares id w) :
    (step.perform w).journal.kept id = w.journal.kept id := by
  let J (j : Journal) : Prop := j.kept id = w.journal.kept id
  have hclosed := Work.Stays.closed (J := J) fun _ _ hj => hj
  have hR := hclosed.congruence
  have hdiscard {α : Type} {work : Work α} (h : Work.Stays J work) : Work.Stays J (discard work) :=
    fun j hj => after_discard work j ▸ h j hj
  have hembed {other : Nat} (hother : ¬ w.Within id other) :
      Work.Stays J (w.embed w.depth other) := Catalogue.embed_stays hother w.depth _
  have hstays : J (after (step.work w.toCatalogue) w.journal) := by
    cases step with
    | act action =>
      cases action with
      | compile source =>
        exact hdiscard (w.compileSource_related hR source fun inner hasks =>
          ⟨rfl, hembed (h inner hasks)⟩).2 w.journal rfl
      | embed other => exact hdiscard (hembed h) w.journal rfl
      | remembered other =>
        rcases h with hkept | hother
        · obtain ⟨s, hs⟩ := Option.isSome_iff_exists.mp hkept
          change J (after (discard _) w.journal)
          rw [after_discard, after, Catalogue.remembered_of_some hs]
        · exact hdiscard (Catalogue.remembered_stays (hembed hother)) w.journal rfl
      | _ => rfl
    | translate registry params context tree =>
      have hbeside : (w.scope registry).Beside (fun _ v v' => v = v' ∧ Work.Stays J v)
          (w.scope registry) (Filter.demands tree) :=
        ⟨rfl, fun ref href => ⟨rfl, hembed (h ref href)⟩⟩
      exact hdiscard (Filter.collect_related hR hbeside context params).2 w.journal rfl
  rw [step.kept_perform w]
  exact hstays

theorem Spares.kept {id : Nat} {row : List Step} {w : Workspace} (h : Spares id row w) :
    (steps row w).journal.kept id = w.journal.kept id := by
  induction row generalizing w with
  | nil => rfl
  | cons step row ih => exact (ih h.2).trans h.1.kept

end Spared

section Current

/-- The statement that the source has now, in parentheses. -/
def current (source : Nat) (w : Workspace) : Work Statement :=
  match compile source w with
  | .ok s _ => pure ⟨"(" ++ s.sql ++ ")", s.params⟩
  | .error e _ => throw e

variable {w : Workspace} {id source : Nat}

theorem embed_sameResult_current (h : w.targets[id]? = some (.source source)) :
    (w.embed w.depth id).SameResult (current source w) := by
  intro j j'
  unfold current
  cases hcompile : compile source w with
  | ok s w' =>
    have hreturns := embed_eq_ok_iff.mpr ⟨source, s, h, ⟨w', hcompile⟩, rfl⟩
    obtain ⟨k, hk⟩ := ((w.embed_steady w.depth id).returns_iff j).mp hreturns
    rw [hk]
    rfl
  | error e w' =>
    cases hj : w.embed w.depth id j with
    | ok p k =>
      obtain ⟨other, s, hother, ⟨v, hv⟩, -⟩ := embed_eq_ok_iff.mp ⟨j, k, hj⟩
      obtain rfl : source = other := Target.source.inj (Option.some.inj (h.symm.trans hother))
      exact absurd (hcompile.symm.trans hv) nofun
    | error e' k => rfl

theorem draft_eq_ok_iff {α : Type} {registry : RegistryId} {params values : List Value}
    {f : Scope → Compile α} {a : α} :
    (∃ w', draft registry params f w = .ok (.ok a, values) w') ↔
      Work.result? (Compile.collect params (f (w.scope registry)) w.journal) = some (a, values) := by
  unfold draft Compile.collect
  cases f (w.scope registry) ⟨params, w.journal⟩ with
  | ok b d => simp [Work.result?]
  | error e d => simp [Work.result?]

/-- A filter is translated with the statement that the source has now, whatever is kept. -/
theorem draft_replace_iff (h : w.targets[id]? = some (.source source)) (j : Journal)
    (registry : RegistryId) (params : List Value) (context : String) (tree : Value) (text : String)
    (values : List Value) :
    (∃ w', draft registry params (fun scope => Filter.compile scope context tree)
      { w with journal := j } = .ok (.ok text, values) w') ↔
    ∃ w', draft registry params (fun scope =>
      Filter.compile (scope.replace id (current source w)) context tree)
      { w with journal := j } = .ok (.ok text, values) w' := by
  let scope := w.scope registry
  have hbeside : scope.Beside (fun _ => Work.SameResult) (scope.replace id (current source w))
      (Filter.demands tree) := by
    refine ⟨rfl, fun ref _ => ?_⟩
    by_cases hid : ref.id = id
    · have hreplaced : (scope.replace id (current source w)).embed ref = current source w :=
        if_pos hid
      rw [hreplaced]
      exact embed_sameResult_current (hid ▸ h)
    · have hembed : (scope.replace id (current source w)).embed ref = scope.embed ref := if_neg hid
      rw [hembed]
      exact w.scope_steady registry ref
  have hsame := Filter.collect_related Work.sameResult_congruence hbeside context params j j
  rw [draft_eq_ok_iff, draft_eq_ok_iff]
  exact Eq.congr_left hsame

end Current

/-- What is kept for a sub-query is the text with the values of one statement, which its source had
at one earlier point of the run. To read it gives that statement until the sub-query is compiled
again; a compilation that fails changes nothing of it; and filters are translated with the statement
that the source has at the time. -/
theorem kept_statements_are_coherent (row : List Step) (id : Nat) :
    (∀ p, (steps row {}).journal.kept id = some p → ∃ before step since source s,
      row = before ++ step :: since ∧ (steps before {}).targets[id]? = some (.source source) ∧
      (∃ w, compile source (steps before {}) = .ok s w) ∧
      p = ⟨"(" ++ s.sql ++ ")", s.params⟩ ∧
      (steps (before ++ [step]) {}).journal.kept id = some p) ∧
    (∀ p w between, remembered id (steps row {}) = .ok p w → Spares id between w →
      (steps between w).journal.kept id = some p ∧
      remembered id (steps between w) = .ok p (steps between w)) ∧
    (∀ e w, embed id (steps row {}) = .error e w → ∀ step : Step,
      (step.perform (steps row {})).journal.kept id = (steps row {}).journal.kept id) ∧
    ∀ source, (steps row {}).targets[id]? = some (.source source) →
      ∀ j registry params context tree text values,
        (∃ w, draft registry params (fun scope => Filter.compile scope context tree)
          { steps row {} with journal := j } = .ok (.ok text, values) w) ↔
        ∃ w, draft registry params (fun scope =>
          Filter.compile (scope.replace id (current source (steps row {}))) context tree)
          { steps row {} with journal := j } = .ok (.ok text, values) w := by
  refine ⟨fun p h => kept_origin h, fun p w between hread hspares => ?_,
    fun e w h step => kept_of_embed_error h step, fun source h => draft_replace_iff h⟩
  have hkept : (steps between w).journal.kept id = some p :=
    hspares.kept.trans (kept_of_remembered hread)
  exact ⟨hkept, remembered_of_kept hkept⟩

/-- A filter with a sub-query is translated, and then the source of the sub-query changes. The
source of another sub-query is a deletion without a filter, which cannot be compiled. -/
def changedSource : List Step :=
  [.act (.start .select (.str "users") 0 .null .null), .act (.wrap (.source 0)),
   .act (.start .delete (.str "users") 0 .null .null), .act (.wrap (.source 1)),
   .translate 0 [] "root" (.map [(.str "uid", .subquery ⟨0, "SubQuery(SELECT)"⟩)]),
   .act (.call 0 (.select (.query (.map [(.str "age", .int 1)]))))]

/-- What was kept before the change is read until the next compilation, and the filter has the
changed text. -/
theorem changedSource_coherent :
    (∃ before step since source s, changedSource = before ++ step :: since ∧
      (steps before {}).targets[0]? = some (.source source) ∧
      (∃ w, compile source (steps before {}) = .ok s w) ∧
      (⟨"(SELECT * FROM users)", []⟩ : Statement) = ⟨"(" ++ s.sql ++ ")", s.params⟩ ∧
      (steps (before ++ [step]) {}).journal.kept 0 = some ⟨"(SELECT * FROM users)", []⟩) ∧
    (∃ w, remembered 0 (steps changedSource {}) = .ok ⟨"(SELECT * FROM users)", []⟩ w ∧
      Spares 0 [.act (.call 0 (.select (.limit (.int 5)))), .act (.remembered 0)] w ∧
      ∃ w', remembered 0 (steps [.act (.call 0 (.select (.limit (.int 5)))), .act (.remembered 0)] w) =
        .ok ⟨"(SELECT * FROM users)", []⟩ w') ∧
    (∃ e w, embed 1 (steps changedSource {}) = .error e w ∧
      (perform (.embed 1) (steps changedSource {})).journal.kept 1 = none) ∧
    ∃ w, draft 0 [.int 7] (fun scope => Filter.compile (scope.replace 0
        (current 0 (steps changedSource {}))) "root"
        (.map [(.str "uid", .subquery ⟨0, "SubQuery(SELECT)"⟩)])) (steps changedSource {}) =
      .ok (.ok "uid IN (SELECT * FROM users WHERE age = ?)", [.int 7, .int 1]) w := by
  obtain ⟨horigin, hread, -, htranslate⟩ := kept_statements_are_coherent changedSource 0
  obtain ⟨-, -, hfailed, -⟩ := kept_statements_are_coherent changedSource 1
  have hspares : Spares 0 [.act (.call 0 (.select (.limit (.int 5)))), .act (.remembered 0)]
      (steps changedSource {}) := ⟨trivial, .inl rfl, trivial⟩
  refine ⟨horigin _ rfl, ⟨_, rfl, hspares, _, (hread _ _ _ rfl hspares).2⟩,
    ⟨_, _, rfl, (hfailed _ _ rfl (.act (.embed 1))).trans rfl⟩, ?_⟩
  exact (htranslate 0 rfl _ 0 [.int 7] "root" _ _ _).mp ⟨_, rfl⟩

end Session

end BoundQuery
