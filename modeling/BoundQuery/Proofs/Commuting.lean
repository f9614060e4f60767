import BoundQuery.Proofs.Edit
import BoundQuery.Proofs.Outcome
import BoundQuery.Proofs.Rows

/-! Calls in another order. Calls on different parts of a builder commute, and of the calls that set
a part only the last one counts. Compiling in between changes neither the builder nor what comes of
it later. -/
namespace BoundQuery

/-- The part of a builder that a call is about. -/
inductive Aspect where
  | filter
  | projection
  | joins
  | order
  | limit
  | offset
  | payload
  | single
  | documents
  | upsert
  | stages
deriving DecidableEq

/-- Filters, joins and stages add up; the other parts are set. -/
def Aspect.overridden : Aspect → Bool
  | filter => false
  | joins => false
  | stages => false
  | _ => true

def Edit.aspect : Edit → Aspect
  | filter _ => .filter
  | projection _ => .projection
  | joins _ => .joins
  | order _ => .order
  | limit _ => .limit
  | offset _ => .offset
  | payload _ => .payload
  | single => .single
  | documents _ => .documents
  | upsert _ _ => .upsert
  | stage _ => .stages

def Builder.Call.aspect : Builder.Call → Aspect
  | .select (.query _) => .filter
  | .select (.project _) => .projection
  | .select (.join _) => .joins
  | .select (.sort _) => .order
  | .select (.limit _) => .limit
  | .select (.offset _) => .offset
  | .update (.query _) => .filter
  | .update (.update _) => .payload
  | .update .single => .single
  | .delete (.query _) => .filter
  | .delete .single => .single
  | .insert (.insertOne _) => .documents
  | .insert (.insertMany _) => .documents
  | .insert (.upsert _ _) => .upsert
  | .aggregate _ => .stages

namespace Edit

variable {x y : Edit}

def runAll (edits : List Edit) (b : Builder) : Builder := edits.foldl (fun b e => e.run b) b

theorem run_comm (h : x.aspect ≠ y.aspect) (b : Builder) : y.run (x.run b) = x.run (y.run b) := by
  cases b <;> cases x <;> cases y <;> first | rfl | exact absurd rfl h

theorem run_overridden (h : x.aspect = y.aspect) (hset : y.aspect.overridden = true) (b : Builder) :
    y.run (x.run b) = y.run b := by
  cases y <;> cases hset <;> cases x <;> cases h <;> cases b <;> rfl

end Edit

namespace Builder

/-- What is read from a call does not depend on the edits before it. -/
theorem read_run (call : Call) (edit : Edit) (b : Builder) : read call (edit.run b) = read call b := by
  cases call <;> cases b <;> cases edit <;> rfl

theorem aspect_of_map {α : Type} {edit : α → Edit} {x : Except Error α} {e : Edit} {a : Aspect}
    (h : edit <$> x = .ok e) (ha : ∀ v, (edit v).aspect = a) : e.aspect = a := by
  cases x with
  | ok v =>
    obtain rfl := Except.ok.inj h
    exact ha v
  | error _ => cases h

/-- A call is read to an edit of the part that it is about. -/
theorem read_aspect {call : Call} {b : Builder} {e : Edit} (h : read call b = .ok e) :
    e.aspect = call.aspect := by
  cases call with
  | select c =>
    cases b with
    | select s =>
      cases c with
      | join joins =>
        obtain ⟨items, -, hjoins⟩ := except_bind_eq_ok_iff.mp h
        exact aspect_of_map hjoins fun _ => rfl
      | _ => exact aspect_of_map h fun _ => rfl
    | _ => cases h
  | update c =>
    cases b with
    | update u =>
      cases c with
      | single =>
        obtain rfl := Except.ok.inj h
        rfl
      | _ => exact aspect_of_map h fun _ => rfl
    | _ => cases h
  | delete c =>
    cases b with
    | delete d =>
      cases c with
      | single =>
        obtain rfl := Except.ok.inj h
        rfl
      | _ => exact aspect_of_map h fun _ => rfl
    | _ => cases h
  | insert c =>
    cases b with
    | insert i =>
      cases c with
      | insertOne document => exact aspect_of_map h fun _ => rfl
      | insertMany documents =>
        simp only [read, Insert.read] at h
        split at h
        · exact aspect_of_map h fun _ => rfl
        · cases h
      | upsert enable fields =>
        cases fields with
        | null =>
          obtain rfl := Except.ok.inj h
          rfl
        | _ => exact aspect_of_map h fun _ => rfl
    | _ => cases h
  | aggregate c =>
    cases b with
    | aggregate a =>
      cases c with
      | add stage => exact aspect_of_map h fun _ => rfl
      | named kind content => exact aspect_of_map h fun _ => rfl
      | _ =>
        obtain ⟨content, -, hstage⟩ := except_bind_eq_ok_iff.mp h
        exact aspect_of_map hstage fun _ => rfl
    | _ => cases h

def callsOf (a : Aspect) (calls : List Call) : List Call := Rows.ofKind Call.aspect a calls

def edits (b : Builder) (calls : List Call) : List Edit :=
  calls.filterMap fun call => (read call b).toOption

def Readable (b : Builder) (call : Call) : Prop := ∃ e, read call b = .ok e

section Edits

variable {b : Builder} {call : Call} {calls : List Call} {e : Edit}

theorem edits_cons_of_ok (h : read call b = .ok e) (calls : List Call) :
    edits b (call :: calls) = e :: edits b calls := by
  simp [edits, h, Except.toOption]

theorem edits_run (edit : Edit) (b : Builder) (calls : List Call) :
    edits (edit.run b) calls = edits b calls := by
  simp only [edits, read_run]

theorem ofKind_edits (h : ∀ call ∈ calls, b.Readable call) (a : Aspect) :
    Rows.ofKind Edit.aspect a (edits b calls) = edits b (callsOf a calls) := by
  induction calls with
  | nil => rfl
  | cons call rest ih =>
    obtain ⟨⟨e, he⟩, hrest⟩ := List.forall_mem_cons.mp h
    have haspect := read_aspect he
    rw [edits_cons_of_ok he]
    by_cases ha : call.aspect = a
    · subst ha
      rw [callsOf, Rows.ofKind_cons_self, edits_cons_of_ok he, ← haspect, Rows.ofKind_cons_self,
        haspect, ih hrest, callsOf]
    · rw [Rows.ofKind_cons_of_ne (haspect ▸ ha), ih hrest, callsOf, callsOf,
        Rows.ofKind_cons_of_ne ha]

theorem readable_callsOf (h : ∀ call ∈ calls, b.Readable call) {a : Aspect} :
    ∀ call ∈ callsOf a calls, b.Readable call :=
  fun call hcall => h call (List.mem_of_mem_filter hcall)

theorem getLast?_edits (h : ∀ call ∈ calls, b.Readable call) :
    (edits b calls).getLast? = calls.getLast?.bind fun call => (read call b).toOption := by
  induction calls using List.reverseRecOn with
  | nil => rfl
  | append_singleton rest call _ =>
    obtain ⟨e, he⟩ := h call (by simp)
    simp [edits, he, Except.toOption]

/-- Readable calls in another order make the same of a builder, if those on each part keep theirs. -/
theorem runAll_edits_eq {p q : List Call} (hp : ∀ call ∈ p, b.Readable call)
    (hq : ∀ call ∈ q, b.Readable call) (h : ∀ a, callsOf a p = callsOf a q) :
    Edit.runAll (edits b p) b = Edit.runAll (edits b q) b := by
  refine Rows.foldl_eq_of_ofKind_eq Edit.aspect _ Edit.run_comm (fun a => ?_) b
  rw [ofKind_edits hp, ofKind_edits hq, h]

theorem runAll_edits_eq_of_last {p q : List Call} (hp : ∀ call ∈ p, b.Readable call)
    (hq : ∀ call ∈ q, b.Readable call)
    (hall : ∀ a, a.overridden = false → callsOf a p = callsOf a q)
    (hlast : ∀ a, a.overridden = true → (callsOf a p).getLast? = (callsOf a q).getLast?) :
    Edit.runAll (edits b p) b = Edit.runAll (edits b q) b := by
  refine Rows.foldl_eq_of_last_eq Edit.aspect _ Edit.run_comm Edit.run_overridden
    (fun a ha => ?_) (fun a ha => ?_) b
  · rw [ofKind_edits hp, ofKind_edits hq, hall a ha]
  · rw [ofKind_edits hp, ofKind_edits hq, getLast?_edits (readable_callsOf hp),
      getLast?_edits (readable_callsOf hq), hlast a ha]

end Edits

/-- A call, or a compilation whose result is let go. -/
inductive Step where
  | call (c : Call)
  | compile

def Step.call? : Step → Option Call
  | call c => some c
  | compile => none

def calls (steps : List Step) : List Call := steps.filterMap Step.call?

/-- The builder and the journal after steps in which no call fails. -/
def proceed (c : Catalogue) : List Step → Builder → Journal → Option (Builder × Journal)
  | [], b, j => some (b, j)
  | .call call :: rest, b, j =>
    match apply call b with
    | .ok _ b' => proceed c rest b' j
    | .error _ _ => none
  | .compile :: rest, b, j => proceed c rest b (after (b.compile (c.scope b.registry)) j)

section Proceed

variable {c : Catalogue} {b : Builder} {j : Journal}

theorem readable_of_proceed {steps : List Step} {r : Builder × Journal}
    (h : proceed c steps b j = some r) : ∀ call ∈ calls steps, b.Readable call := by
  induction steps generalizing b j with
  | nil => simp [calls]
  | cons step rest ih =>
    cases step with
    | compile => exact ih h
    | call call =>
      rw [proceed, apply_eq] at h
      cases hread : read call b with
      | error e =>
        rw [hread] at h
        cases h
      | ok edit =>
        rw [hread] at h
        have hrest := ih h
        simp only [Readable, read_run] at hrest
        exact List.forall_mem_cons.mpr ⟨⟨edit, hread⟩, hrest⟩

/-- Steps in which every call can be read make the edits that the calls ask for. -/
theorem proceed_of_readable {steps : List Step}
    (h : ∀ call ∈ calls steps, b.Readable call) (j : Journal) :
    ∃ j', proceed c steps b j = some (Edit.runAll (edits b (calls steps)) b, j') ∧
      c.Grows j j' := by
  induction steps generalizing b j with
  | nil => exact ⟨j, rfl, fun _ => .inl rfl⟩
  | cons step rest ih =>
    cases step with
    | compile =>
      obtain ⟨j', hproceed, hgrows⟩ := ih h (after (b.compile (c.scope b.registry)) j)
      exact ⟨j', hproceed, ((c.compile_uniform b).keeps j).trans hgrows⟩
    | call call =>
      have hcalls : calls (.call call :: rest) = call :: calls rest := rfl
      rw [hcalls] at h ⊢
      obtain ⟨⟨edit, hread⟩, hrest⟩ := List.forall_mem_cons.mp h
      have hreadable : ∀ call ∈ calls rest, (edit.run b).Readable call := by
        simpa only [Readable, read_run] using hrest
      obtain ⟨j', hproceed, hgrows⟩ := ih hreadable j
      refine ⟨j', ?_, hgrows⟩
      rw [edits_run] at hproceed
      rw [proceed, apply_eq, hread, edits_cons_of_ok hread]
      exact hproceed

theorem proceed_eq_some {steps : List Step} {r : Builder × Journal}
    (h : proceed c steps b j = some r) :
    r.1 = Edit.runAll (edits b (calls steps)) b ∧ c.Grows j r.2 := by
  obtain ⟨j', hproceed, hgrows⟩ := proceed_of_readable (c := c) (readable_of_proceed h) j
  obtain rfl := Option.some.inj (h.symm.trans hproceed)
  exact ⟨rfl, hgrows⟩

def outcome (c : Catalogue) (r : Builder × Journal) : Except Error Statement :=
  Work.outcome (r.1.compile (c.scope r.1.registry) r.2)

theorem outcome_eq_of_edits_eq {p q : List Step} {r r' : Builder × Journal}
    (h : Edit.runAll (edits b (calls p)) b = Edit.runAll (edits b (calls q)) b)
    (hr : proceed c p b j = some r) (hr' : proceed c q b j = some r') :
    r'.1 = r.1 ∧ outcome c r' = outcome c r := by
  obtain ⟨hbuilder, hgrows⟩ := proceed_eq_some hr
  obtain ⟨hbuilder', hgrows'⟩ := proceed_eq_some hr'
  have hsame : r'.1 = r.1 := by rw [hbuilder, hbuilder', h]
  have hagree : c.Agree r'.2 r.2 := hgrows'.agree.symm.trans hgrows.agree
  refine ⟨hsame, ?_⟩
  rw [outcome, outcome, hsame]
  exact (c.compile_uniform r.1).outcome_eq hagree

end Proceed

/-- Only the order of the calls on each part counts, for the builder and for what comes of it; and
of the calls that set a part only the last one does. The builder may be compiled in between, which
may fail. -/
theorem reordered_calls_compile_alike (c : Catalogue) (b : Builder) (j : Journal) (p q : List Step) :
    ((∀ a, callsOf a (calls p) = callsOf a (calls q)) → ∀ r, proceed c p b j = some r →
      ∃ r', proceed c q b j = some r' ∧ r'.1 = r.1 ∧ outcome c r' = outcome c r) ∧
    ((∀ a, a.overridden = false → callsOf a (calls p) = callsOf a (calls q)) →
      (∀ a, a.overridden = true →
        (callsOf a (calls p)).getLast? = (callsOf a (calls q)).getLast?) →
      ∀ r r', proceed c p b j = some r → proceed c q b j = some r' →
        r'.1 = r.1 ∧ outcome c r' = outcome c r) := by
  constructor
  · intro hcalls r hr
    have hp := readable_of_proceed hr
    have hq : ∀ call ∈ calls q, b.Readable call := by
      intro call hcall
      have hmember : call ∈ callsOf call.aspect (calls q) :=
        List.mem_filter.mpr ⟨hcall, by simp⟩
      rw [← hcalls] at hmember
      exact hp call (List.mem_filter.mp hmember).1
    obtain ⟨j', hr', -⟩ := proceed_of_readable (c := c) hq j
    exact ⟨_, hr', outcome_eq_of_edits_eq (runAll_edits_eq hp hq hcalls) hr hr'⟩
  · intro hall hlast r r' hr hr'
    have hp := readable_of_proceed hr
    have hq := readable_of_proceed hr'
    exact outcome_eq_of_edits_eq (runAll_edits_eq_of_last hp hq hall hlast) hr hr'

/-- A limit is set twice here, and the builder is compiled before its last filter. -/
def scatteredSteps : List Step :=
  [.call (.select (.limit (.int 1))), .call (.select (.query (.map [(.str "a", .int 1)]))), .compile,
    .call (.select (.limit (.int 5))), .call (.select (.query (.map [(.str "b", .int 2)])))]

def orderedSteps : List Step :=
  [.call (.select (.query (.map [(.str "a", .int 1)]))),
    .call (.select (.query (.map [(.str "b", .int 2)]))), .call (.select (.limit (.int 1))),
    .call (.select (.limit (.int 5))), .compile]

def lastSteps : List Step :=
  [.call (.select (.query (.map [(.str "a", .int 1)]))),
    .call (.select (.query (.map [(.str "b", .int 2)]))), .call (.select (.limit (.int 5)))]

theorem scatteredSteps_compile_like_orderedSteps :
    ∀ steps ∈ [scatteredSteps, orderedSteps, lastSteps], ∃ r,
      proceed {} steps (.select { table := "t" }) {} = some r ∧
      outcome {} r = .ok ⟨"SELECT * FROM t WHERE (a = ?) AND (b = ?) LIMIT 5", [.int 1, .int 2]⟩ := by
  let b : Builder := .select { table := "t" }
  obtain ⟨r, hr, houtcome⟩ : ∃ r, proceed {} scatteredSteps b {} = some r ∧
      outcome {} r = .ok ⟨"SELECT * FROM t WHERE (a = ?) AND (b = ?) LIMIT 5", [.int 1, .int 2]⟩ :=
    ⟨_, rfl, rfl⟩
  have hreordered := (reordered_calls_compile_alike {} b {} scatteredSteps orderedSteps).1
  obtain ⟨r', hr', -, hsame⟩ := hreordered (fun a => by cases a <;> rfl) r hr
  have hlatest := (reordered_calls_compile_alike {} b {} scatteredSteps lastSteps).2
  have hsame' := (hlatest (fun a ha => by cases a <;> cases ha <;> rfl)
    (fun a _ => by cases a <;> rfl) r _ hr rfl).2
  simp only [List.forall_mem_cons]
  exact ⟨⟨r, hr, houtcome⟩, ⟨r', hr', hsame.trans houtcome⟩, ⟨_, rfl, hsame'.trans houtcome⟩, by simp⟩

end Builder

end BoundQuery
