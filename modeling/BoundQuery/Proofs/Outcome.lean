import BoundQuery.Proofs.Nesting

/-! What comes of a compilation, its failures included. A failure can depend on what is kept: a
sub-query of a sub-query reads what is kept for the inner one. It does not depend on what is kept
for sub-queries that can be compiled, which is all that compiling changes. -/
namespace BoundQuery

def Work.outcome {α : Type} : EStateM.Result Error Journal α → Except Error α
  | .ok a _ => .ok a
  | .error e _ => .error e

section Outcome

open Work

variable {α : Type} {r r' : EStateM.Result Error Journal α}

theorem Work.ends_of_outcome_eq {F : Error → Prop} (h : outcome r = outcome r') (hr : Ends F r) :
    Ends F r' := by
  cases r <;> cases r' <;> simp_all [outcome, Ends]

theorem Work.outcome_eq_cases (h : outcome r = outcome r') :
    (∃ a k k', r = .ok a k ∧ r' = .ok a k') ∨ ∃ e k k', r = .error e k ∧ r' = .error e k' := by
  cases r with
  | ok a k =>
    cases r' with
    | ok a' k' =>
      obtain rfl := Except.ok.inj h
      exact .inl ⟨a, k, k', rfl, rfl⟩
    | error e' k' => cases h
  | error e k =>
    cases r' with
    | ok a' k' => cases h
    | error e' k' =>
      obtain rfl := Except.error.inj h
      exact .inr ⟨e, k, k', rfl, rfl⟩

theorem Work.outcome_of_not_ends (h : ¬ Ends (· ≠ .circular) r) : outcome r = .error .circular := by
  cases r with
  | ok a j => exact absurd trivial h
  | error e j => exact congrArg Except.error (not_not.mp h)

end Outcome

namespace Catalogue

open Work

variable (c : Catalogue) {α : Type}

/-- The journals keep statements for the same sub-queries, but for those that can be compiled. -/
def Agree (j j' : Journal) : Prop := ∀ id ∉ c.compilable, (j.kept id).isSome = (j'.kept id).isSome

section Agree

variable {c} {j j' k k' : Journal}

theorem Agree.symm (h : c.Agree j j') : c.Agree j' j := fun id hid => (h id hid).symm

theorem Agree.trans (h : c.Agree j k) (h' : c.Agree k k') : c.Agree j k' :=
  fun id hid => (h id hid).trans (h' id hid)

theorem Grows.agree (h : c.Grows j k) : c.Agree j k := by
  intro id hid
  rcases h id with hsame | ⟨s, hreturns, -⟩
  · rw [hsame]
  · exact absurd (c.mem_compilable.mpr ⟨c.depth, s, hreturns⟩) hid

theorem Agree.grows (h : c.Agree j j') (hk : c.Grows j k) (hk' : c.Grows j' k') : c.Agree k k' :=
  hk.agree.symm.trans (h.trans hk'.agree)

end Agree

/-- Journals that agree make no difference to what comes of the work. -/
structure Uniform (w : Work α) : Prop where
  keeps : c.Keeps w
  outcome_eq : ∀ {j j'}, c.Agree j j' → outcome (w j) = outcome (w j')

theorem Uniform.bind {c : Catalogue} {β : Type} {w : Work α} {f : α → Work β} (hw : c.Uniform w)
    (hf : ∀ a, c.Uniform (f a)) : c.Uniform (w >>= f) where
  keeps := hw.keeps.bind fun a => (hf a).keeps
  outcome_eq := by
    intro j j' hagree
    have hsame := hw.outcome_eq hagree
    have hafter := hagree.grows (hw.keeps j) (hw.keeps j')
    simp only [after, Bind.bind, EStateM.bind] at hafter ⊢
    rcases outcome_eq_cases hsame with ⟨a, k, k', hj, hj'⟩ | ⟨e, k, k', hj, hj'⟩
    · rw [hj, hj'] at hafter ⊢
      exact (hf a).outcome_eq hafter
    · rw [hj, hj']
      rfl

theorem uniform_closed : Work.Closed fun _ w => c.Uniform w where
  pure a := ⟨c.keeps_closed.pure a, fun _ => rfl⟩
  bind := .bind
  throw e := ⟨c.keeps_closed.throw e, fun _ => rfl⟩
  note e := ⟨c.keeps_closed.note e, fun _ => rfl⟩

noncomputable def stuck : Finset Nat := Finset.range c.targets.length \ c.compilable

theorem card_stuck : c.stuck.card + c.compilable.card + 1 = c.depth := by
  have hcard := Finset.card_sdiff_add_card_eq_card c.compilable_subset
  rw [Finset.card_range] at hcard
  rw [stuck, hcard, depth]

theorem targets_of_not_stuck {id : Nat} (h : id ∉ c.stuck) (h' : id ∉ c.compilable) :
    c.targets[id]? = none := by
  rw [stuck, Finset.mem_sdiff, Finset.mem_range] at h
  refine List.getElem?_eq_none ?_
  by_contra hlt
  exact h ⟨Nat.lt_of_not_le hlt, h'⟩

/-- Apart from the sub-queries that are stuck, fuel above their number makes no difference. -/
theorem embed_of_not_stuck {id m : Nat} (hid : id ∉ c.stuck) (hm : c.compilable.card < m) :
    c.embed m id = c.embed c.depth id := by
  funext j
  by_cases hcompilable : id ∈ c.compilable
  · obtain ⟨n, s, hreturns⟩ := c.mem_compilable.mp hcompilable
    obtain ⟨k, hk⟩ := ((c.embed_steady n id).returns_iff j).mp hreturns
    have hcard := c.embed_eq_ok_card hk
    rw [c.embed_depth_eq_ok hk, c.embed_eq_ok_of_le hm.le hcard]
  · have hnone := c.targets_of_not_stuck hid hcompilable
    obtain ⟨n, rfl⟩ := Nat.exists_eq_add_of_lt hm
    rw [depth, embed_succ, embed_succ, nested_none hnone, nested_none hnone]

/-- A sub-query, with fuel only for those that are stuck. -/
noncomputable def settle (c : Catalogue) : (fuel : Nat) → (id : Nat) → Work Statement
  | 0, id => if id ∈ c.stuck then throw .circular else c.embed c.depth id
  | fuel + 1, id => if id ∈ c.stuck then c.nested (c.settle fuel) id else c.embed c.depth id

section Settle

variable {c} {id : Nat}

theorem settle_zero (h : id ∈ c.stuck) : c.settle 0 id = throw .circular := if_pos h

theorem settle_succ (h : id ∈ c.stuck) (n : Nat) :
    c.settle (n + 1) id = c.nested (c.settle n) id := if_pos h

theorem settle_of_not_stuck (h : id ∉ c.stuck) (n : Nat) : c.settle n id = c.embed c.depth id := by
  cases n <;> exact if_neg h

variable (c)

theorem embed_follows_settle {n : Nat} (hn : n ≤ c.depth) (id : Nat) :
    Follows (fun _ => True) (· ≠ .circular) (c.embed n id) (c.settle n id) := by
  induction n generalizing id with
  | zero => exact fun _ _ hends => absurd rfl hends
  | succ n ih =>
    by_cases hid : id ∈ c.stuck
    · rw [settle_succ hid]
      exact nested_follows (fun _ _ h => h) (fun _ _ h => h) (ih (Nat.le_of_succ_le hn)) id
    · rw [settle_of_not_stuck hid]
      exact c.embed_follows hn id

theorem settle_follows_embed (n id : Nat) : Follows (fun _ => True) (· ≠ .circular) (c.settle n id)
    (c.embed (n + c.compilable.card + 1) id) := by
  have hfuel : ∀ n, c.compilable.card < n + c.compilable.card + 1 := fun n => by omega
  induction n generalizing id with
  | zero =>
    by_cases hid : id ∈ c.stuck
    · rw [settle_zero hid]
      exact fun _ _ hends => absurd rfl hends
    · rw [settle_of_not_stuck hid, ← c.embed_of_not_stuck hid (hfuel 0)]
      exact .refl _
  | succ n ih =>
    by_cases hid : id ∈ c.stuck
    · rw [settle_succ hid, Nat.add_right_comm n 1, embed_succ]
      exact nested_follows (fun _ _ h => h) (fun _ _ h => h) ih id
    · rw [settle_of_not_stuck hid, ← c.embed_of_not_stuck hid (hfuel (n + 1))]
      exact .refl _

theorem settle_follows_succ (n id : Nat) :
    Follows (fun _ => True) (· ≠ .circular) (c.settle n id) (c.settle (n + 1) id) := by
  induction n generalizing id with
  | zero =>
    by_cases hid : id ∈ c.stuck
    · rw [settle_zero hid]
      exact fun _ _ hends => absurd rfl hends
    · rw [settle_of_not_stuck hid, settle_of_not_stuck hid]
      exact .refl _
  | succ n ih =>
    by_cases hid : id ∈ c.stuck
    · rw [settle_succ hid, settle_succ hid]
      exact nested_follows (fun _ _ h => h) (fun _ _ h => h) ih id
    · rw [settle_of_not_stuck hid, settle_of_not_stuck hid]
      exact .refl _

theorem settle_keeps (n id : Nat) : c.Keeps (c.settle n id) := by
  induction n generalizing id with
  | zero =>
    by_cases hid : id ∈ c.stuck
    · rw [settle_zero hid]
      exact c.keeps_closed.throw _
    · rw [settle_of_not_stuck hid]
      exact c.embed_keeps _ id
  | succ n ih =>
    by_cases hid : id ∈ c.stuck
    · rw [settle_succ hid]
      refine c.nested_keeps ih fun j s k hs => ?_
      rw [← settle_succ hid] at hs
      have hmore := c.settle_follows_embed (n + 1) id j trivial (by rw [hs]; trivial)
      exact ⟨j, k, c.embed_depth_eq_ok (hmore.trans hs)⟩
    · rw [settle_of_not_stuck hid]
      exact c.embed_keeps _ id

theorem settle_outcome {id : Nat} (hid : id ∈ c.compilable) (n : Nat) (j : Journal) :
    ∃ s, outcome (c.settle n id j) = .ok s := by
  have hstuck : id ∉ c.stuck := fun h => (Finset.mem_sdiff.mp h).2 hid
  obtain ⟨m, s, hreturns⟩ := c.mem_compilable.mp hid
  obtain ⟨k, hk⟩ := ((c.embed_steady m id).returns_iff j).mp hreturns
  rw [settle_of_not_stuck hstuck, c.embed_depth_eq_ok hk]
  exact ⟨s, rfl⟩

/-- What is compiled for a sub-query that can be is the same from every journal. -/
theorem embed_uniform_of_not_stuck {id : Nat} (hid : id ∉ c.stuck) :
    c.Uniform (c.embed c.depth id) := by
  refine ⟨c.embed_keeps _ id, fun {j j'} _ => ?_⟩
  by_cases hcompilable : id ∈ c.compilable
  · obtain ⟨n, s, hreturns⟩ := c.mem_compilable.mp hcompilable
    obtain ⟨k, hk⟩ := ((c.embed_steady n id).returns_iff j).mp hreturns
    obtain ⟨k', hk'⟩ := ((c.embed_steady n id).returns_iff j').mp hreturns
    rw [c.embed_depth_eq_ok hk, c.embed_depth_eq_ok hk']
    rfl
  · rw [depth, embed_succ, nested_none (c.targets_of_not_stuck hid hcompilable)]
    rfl

section Nested

variable {c} {embed : Nat → Work Statement} {id : Nat}

theorem outcome_source {source : Nat} (h : c.targets[id]? = some (.source source)) (j : Journal) :
    outcome (c.nested embed id j) = (outcome (c.compileSource embed source j)).map
      fun s => ⟨"(" ++ s.sql ++ ")", s.params⟩ := by
  rw [nested_source h]
  simp only [Bind.bind, EStateM.bind]
  cases c.compileSource embed source j with
  | ok s k =>
    obtain ⟨l, hl⟩ := keep_eq id s k
    simp only [hl]
    rfl
  | error e k => rfl

/-- A sub-query of a sub-query fails as the inner one does, if that is not kept and fails. -/
theorem outcome_subquery {inner : Nat} (h : c.targets[id]? = some (.subquery inner)) (j : Journal) :
    outcome (c.nested embed id j) = if (j.kept inner).isSome then .error .unfit
      else outcome (embed inner j) >>= fun _ => .error .unfit := by
  rw [nested_subquery h]
  simp only [Bind.bind, EStateM.bind]
  cases hkept : j.kept inner with
  | some s =>
    rw [remembered_of_some hkept]
    rfl
  | none =>
    rw [remembered_of_none hkept]
    cases embed inner j <;> rfl

end Nested

/-- By induction on the fuel. A sub-query of a sub-query is where journals count: what only one of
them keeps can be compiled, and so it fails from the other in the same way. -/
theorem settle_uniform (n id : Nat) : c.Uniform (c.settle n id) := by
  have hclosed := c.uniform_closed
  induction n generalizing id with
  | zero =>
    by_cases hid : id ∈ c.stuck
    · rw [settle_zero hid]
      exact hclosed.throw _
    · rw [settle_of_not_stuck hid]
      exact c.embed_uniform_of_not_stuck hid
  | succ n ih =>
    by_cases hid : id ∈ c.stuck
    · refine ⟨c.settle_keeps (n + 1) id, fun {j j'} hagree => ?_⟩
      rw [settle_succ hid]
      cases htarget : c.targets[id]? with
      | none =>
        rw [nested_none htarget]
        rfl
      | some target =>
        cases target with
        | source source =>
          have hsource := (c.compileSource_related hclosed.congruence source
            fun inner _ => ⟨rfl, ih inner⟩).2
          rw [outcome_source htarget, outcome_source htarget, hsource.outcome_eq hagree]
        | subquery inner =>
          have hinner := (ih inner).outcome_eq hagree
          rw [outcome_subquery htarget, outcome_subquery htarget, hinner]
          by_cases hcompilable : inner ∈ c.compilable
          · obtain ⟨s, hs⟩ := c.settle_outcome hcompilable n j'
            have hunfit : (outcome (c.settle n inner j') >>= fun _ => .error .unfit) =
                (.error .unfit : Except Error Statement) := by rw [hs]; rfl
            rw [hunfit, ite_self, ite_self]
          · rw [hagree inner hcompilable]
    · rw [settle_of_not_stuck hid]
      exact c.embed_uniform_of_not_stuck hid

/-- From journals that agree, fuel for as many sub-queries as are stuck is enough. -/
theorem settle_follows_card (j₀ : Journal) (n id : Nat) :
    Follows (c.Agree j₀) (· ≠ .circular) (c.settle n id) (c.settle c.stuck.card id) := by
  have hmore : ∀ n id, Follows (c.Agree j₀) (· ≠ .circular) (c.settle n id) (c.settle (n + 1) id) :=
    fun n id j _ => c.settle_follows_succ n id j trivial
  have hstays : ∀ n id, Stays (c.Agree j₀) (c.settle n id) :=
    fun n id j hj => hj.trans (c.settle_keeps n id j).agree
  refine follows_card hmore c.stuck j₀ (fun _ _ => rfl) ?other ?step ?uniform n id
  case other =>
    intro n id hid
    rw [settle_of_not_stuck hid, settle_of_not_stuck hid]
    exact .refl _
  case step =>
    intro n hfewer id
    by_cases hid : id ∈ c.stuck
    · rw [settle_succ hid, settle_succ hid]
      exact nested_follows (fun _ _ h => h) (hstays (n + 1)) hfewer id
    · rw [settle_of_not_stuck hid, settle_of_not_stuck hid]
      exact .refl _
  case uniform =>
    intro n id j j' hj hj' hends
    exact ends_of_outcome_eq ((c.settle_uniform n id).outcome_eq (hj.symm.trans hj')) hends

/-- Fuel that is enough from one journal is enough from those that agree with it. -/
theorem embed_outcome_of_ends {id : Nat} {j j' : Journal} (hagree : c.Agree j j')
    (hends : Ends (· ≠ .circular) (c.embed c.depth id j)) :
    outcome (c.embed c.depth id j) = outcome (c.embed c.depth id j') := by
  have hsettle := c.embed_follows_settle le_rfl id j trivial hends
  have hsame := (c.settle_uniform c.depth id).outcome_eq hagree
  rw [hsettle] at hsame
  have hends' := ends_of_outcome_eq hsame hends
  have hfewer := c.settle_follows_card j' c.depth id j' (fun _ _ => rfl) hends'
  rw [← hfewer] at hends' hsame
  have hembed := c.settle_follows_embed c.stuck.card id j' trivial hends'
  rw [c.card_stuck] at hembed
  rw [hembed, hsame]

theorem embed_uniform (id : Nat) : c.Uniform (c.embed c.depth id) := by
  refine ⟨c.embed_keeps _ id, fun {j j'} hagree => ?_⟩
  by_cases hends : Ends (· ≠ .circular) (c.embed c.depth id j)
  · exact c.embed_outcome_of_ends hagree hends
  by_cases hends' : Ends (· ≠ .circular) (c.embed c.depth id j')
  · exact (c.embed_outcome_of_ends hagree.symm hends').symm
  · rw [outcome_of_not_ends hends, outcome_of_not_ends hends']

end Settle

/-- Of what is kept, what can be compiled makes no difference to what comes of a builder. -/
theorem compile_uniform (b : Builder) : c.Uniform (b.compile (c.scope b.registry)) :=
  (Builder.compile_related c.uniform_closed.congruence
    ⟨rfl, fun ref _ => ⟨rfl, c.embed_uniform ref.id⟩⟩).2

end Catalogue

end BoundQuery
