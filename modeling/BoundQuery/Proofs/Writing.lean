import BoundQuery.Work

/-! What a computation that binds values appends to those bound before. -/
namespace BoundQuery.Compile

variable {α β : Type} {c : Compile α} {P P' : α → List Value → Prop} {Q : β → List Value → Prop}

/-- If the computation returns a result, it has appended values to those bound before, and they
belong to the result as `P` says. -/
def Writes (c : Compile α) (P : α → List Value → Prop) : Prop :=
  ∀ d a d', c d = .ok a d' → ∃ vs, d'.params = d.params ++ vs ∧ P a vs

namespace Writes

theorem imp (hc : Writes c P) (h : ∀ a vs, P a vs → P' a vs) : Writes c P' := by
  intro d a d' hd
  obtain ⟨vs, hvs, hP⟩ := hc d a d' hd
  exact ⟨vs, hvs, h a vs hP⟩

theorem pure {a : α} (h : P a []) : Writes (Pure.pure a) P := by
  rintro d _ _ ⟨rfl, rfl⟩
  exact ⟨[], (List.append_nil _).symm, h⟩

theorem throw {e : Error} : Writes (MonadExcept.throw e : Compile α) P := by
  rintro d a d' ⟨⟩

/-- The second computation goes on after the values of the first. -/
theorem bind {f : α → Compile β} (hc : Writes c P)
    (hf : ∀ a vs, P a vs → Writes (f a) fun b ws => Q b (vs ++ ws)) : Writes (c >>= f) Q := by
  intro d b d'' hd
  obtain ⟨a, d', hcd, hfd⟩ := bind_eq_ok_iff.mp hd
  obtain ⟨vs, hvs, hP⟩ := hc d a d' hcd
  obtain ⟨ws, hws, hQ⟩ := hf a vs hP d' b d'' hfd
  exact ⟨vs ++ ws, by rw [hws, hvs, List.append_assoc], hQ⟩

theorem map {f : α → β} (hc : Writes c P) (h : ∀ a vs, P a vs → Q (f a) vs) :
    Writes (f <$> c) Q := by
  rw [map_eq_pure_bind]
  exact hc.bind fun a vs ha => .pure (by simpa using h a vs ha)

theorem bindAll (values : List Value) : Writes (Compile.bindAll values) fun _ vs => vs = values := by
  rintro d _ _ ⟨rfl, rfl⟩
  exact ⟨values, rfl, rfl⟩

theorem bindValue (value : Value) : Writes (Compile.bindValue value) fun _ vs => vs = [value] :=
  bindAll [value]

theorem note (e : Event) : Writes (Compile.note e) fun _ vs => vs = [] := by
  rintro d _ _ ⟨rfl, rfl⟩
  exact ⟨[], (List.append_nil _).symm, rfl⟩

theorem get : Writes (MonadState.get : Compile Draft) fun _ vs => vs = [] := by
  rintro d _ _ ⟨rfl, rfl⟩
  exact ⟨[], (List.append_nil _).symm, rfl⟩

theorem ofExcept {x : Except Error α} (h : ∀ a, x = .ok a → P a []) :
    Writes (liftM x : Compile α) P := by
  intro d a d' hd
  cases x with
  | ok b =>
    obtain ⟨rfl, rfl⟩ := hd
    exact ⟨[], (List.append_nil _).symm, h _ rfl⟩
  | error e => cases hd

theorem ofWork {work : Work α} (h : ∀ j a j', work j = .ok a j' → P a []) :
    Writes (liftM work : Compile α) P := by
  intro d a d' hd
  change Compile.ofWork work d = _ at hd
  unfold Compile.ofWork at hd
  split at hd
  · rename_i b j hw
    obtain ⟨rfl, rfl⟩ := hd
    exact ⟨[], (List.append_nil _).symm, h _ _ _ hw⟩
  · cases hd

end Writes

theorem collect_run {params ws : List Value} {j j' : Journal} {a : α}
    (h : collect params c j = .ok (a, ws) j') : ∃ d, c ⟨params, j⟩ = .ok a d ∧ ws = d.params := by
  unfold collect at h
  split at h
  · rename_i b d hb
    obtain ⟨⟨rfl, rfl⟩, rfl⟩ := h
    exact ⟨d, hb, rfl⟩
  · cases h

/-- What is collected: the values to begin with, then those of the computation. -/
theorem collect_eq_ok {params ws : List Value} {j j' : Journal} {a : α} (hc : Writes c P)
    (h : collect params c j = .ok (a, ws) j') : ∃ vs, ws = params ++ vs ∧ P a vs := by
  obtain ⟨d, hd, rfl⟩ := collect_run h
  exact hc _ _ _ hd

/-- The computation returns `a` and appends `vs`, whatever was bound and reported before. -/
def Yields (c : Compile α) (a : α) (vs : List Value) : Prop :=
  ∀ d, ∃ j, c d = .ok a ⟨d.params ++ vs, j⟩

namespace Yields

variable {a : α} {b : β} {vs ws : List Value}

theorem pure (a : α) : Yields (Pure.pure a) a [] := fun d => ⟨d.journal, by simp [Pure.pure, EStateM.pure]⟩

theorem bind {f : α → Compile β} (hc : Yields c a vs) (hf : Yields (f a) b ws) :
    Yields (c >>= f) b (vs ++ ws) := by
  intro d
  obtain ⟨j, hj⟩ := hc d
  obtain ⟨k, hk⟩ := hf ⟨d.params ++ vs, j⟩
  exact ⟨k, bind_eq_ok_iff.mpr ⟨a, _, hj, by rw [hk, List.append_assoc]⟩⟩

/-- A computation that binds nothing, and the rest. -/
theorem next {f : α → Compile β} (hc : Yields c a []) (hf : Yields (f a) b ws) :
    Yields (c >>= f) b ws := hc.bind hf

/-- The last step, which binds nothing. -/
theorem last {f : α → Compile β} (hc : Yields c a vs) (hf : Yields (f a) b []) :
    Yields (c >>= f) b vs := by
  simpa using hc.bind hf

theorem map {f : α → β} (hc : Yields c a vs) : Yields (f <$> c) (f a) vs := by
  rw [map_eq_pure_bind]
  exact hc.last (pure (f a))

theorem bindAll (values : List Value) : Yields (Compile.bindAll values) () values :=
  fun d => ⟨d.journal, rfl⟩

theorem bindValue (value : Value) : Yields (Compile.bindValue value) () [value] :=
  bindAll [value]

theorem note (e : Event) : Yields (Compile.note e) () [] :=
  fun d => ⟨d.journal.note e, by simp⟩

theorem get_bind {f : Draft → Compile β} (hf : ∀ d, Yields (f d) b ws) :
    Yields (MonadState.get >>= f) b ws := fun d => hf d d

theorem ofExcept {x : Except Error α} (h : x = .ok a) : Yields (liftM x : Compile α) a [] := by
  subst h
  exact pure a

theorem ofWork {work : Work α} (h : ∀ j, ∃ j', work j = .ok a j') :
    Yields (liftM work : Compile α) a [] := by
  intro d
  obtain ⟨j, hj⟩ := h d.journal
  refine ⟨j, ?_⟩
  show Compile.ofWork work d = _
  simp [Compile.ofWork, hj]

end Yields

theorem Yields.collect {vs : List Value} {a : α} (hc : Yields c a vs) (params : List Value)
    (j : Journal) : ∃ j', collect params c j = .ok (a, params ++ vs) j' := by
  obtain ⟨k, hk⟩ := hc ⟨params, j⟩
  exact ⟨k, by simp [Compile.collect, hk]⟩

end BoundQuery.Compile
