import BoundQuery.Proofs.Statement.Spelled
import BoundQuery.Proofs.Steady

/-! Statements with the sub-queries in them, to any depth. What is written for a sub-query is the
statement of its source in parentheses, by the same rules. -/
namespace BoundQuery

open Fragments

inductive Source.Spells (V : RegistryId → Vocabulary) : Source → Fragments → Prop
  | builder {b : Builder} {fs : Fragments} (spelled : b.Spells (V b.registry) fs) :
      Spells V (.builder b) fs
  | fixed (s : Statement) : Spells V (.fixed s) [.whole s]

namespace Catalogue

/-- The handlers of a registry, with sub-queries written as told. -/
def vocabulary (c : Catalogue) (subquery : Nat → Statement → Prop) (registry : RegistryId) :
    Vocabulary where
  handler := (c.registry registry).writes
  subquery ref := subquery ref.id

def SpellsSource (c : Catalogue) (subquery : Nat → Statement → Prop) (id : Nat) (fs : Fragments) :
    Prop :=
  ∃ source, c.sources[id]? = some source ∧ source.Spells (c.vocabulary subquery) fs

/-- What is written for a sub-query in which sub-queries are nested less than `depth` deep. -/
def Embeds (c : Catalogue) : (depth : Nat) → (id : Nat) → Statement → Prop
  | 0, _, _ => False
  | depth + 1, id, s => ∃ source fs, c.targets[id]? = some (.source source) ∧
      c.SpellsSource (c.Embeds depth) source fs ∧ s = (around "(" fs ")").statement

/-- The fragments of a source, with sub-queries nested as deep as they can be. -/
def Spells (c : Catalogue) : (id : Nat) → Fragments → Prop := c.SpellsSource (c.Embeds c.depth)

variable {c : Catalogue} {id : Nat} {s : Statement} {j j' : Journal}

theorem compileSource_spelled (hc : ∀ id, (c.scope id).Appends) {embed : Nat → Work Statement}
    {subquery : Nat → Statement → Prop}
    (he : ∀ id j s j', embed id j = .ok s j' → subquery id s)
    (h : c.compileSource embed id j = .ok s j') :
    ∃ fs, c.SpellsSource subquery id fs ∧ s = fs.statement := by
  cases hsource : c.sources[id]? with
  | none =>
    simp only [compileSource, hsource] at h
    exact absurd h throw_ne_ok
  | some source =>
    simp only [compileSource, hsource] at h
    cases source with
    | builder b =>
      have hwithin : Scope.Within ⟨c.registry b.registry, fun ref => embed ref.id⟩
          (c.vocabulary subquery b.registry) :=
        ⟨hc b.registry, rfl, fun ref => he ref.id⟩
      obtain ⟨fs, hfs, rfl⟩ := Builder.compile_spelled hwithin h
      exact ⟨fs, ⟨_, hsource, .builder hfs⟩, rfl⟩
    | fixed t =>
      obtain ⟨rfl, -⟩ := pure_eq_ok_iff.mp h
      refine ⟨_, ⟨_, hsource, .fixed t⟩, ?_⟩
      simp [Fragments.statement, Fragment.sql, Fragment.params]

/-- By induction on the depth: what is nested in a sub-query is nested one less deep. -/
theorem embed_spelled (hc : ∀ id, (c.scope id).Appends) (depth : Nat) :
    ∀ id j s j', c.embed depth id j = .ok s j' → c.Embeds depth id s := by
  induction depth with
  | zero => exact fun id j s j' h => absurd h throw_ne_ok
  | succ depth ih =>
    intro id j s j' h
    cases htarget : c.targets[id]? with
    | none =>
      simp only [embed, htarget] at h
      exact absurd h throw_ne_ok
    | some target =>
      simp only [embed, htarget] at h
      cases target with
      | source source =>
        obtain ⟨t, k, hsource, h⟩ := bind_eq_ok_iff.mp h
        obtain ⟨l, hl⟩ := keep_eq id t k
        obtain ⟨rfl, -⟩ := EStateM.Result.ok.inj (hl.symm.trans h)
        obtain ⟨fs, hfs, rfl⟩ := compileSource_spelled hc ih hsource
        exact ⟨source, fs, htarget, hfs, by simp [Fragments.statement]⟩
      | subquery inner =>
        obtain ⟨-, k, -, h⟩ := bind_eq_ok_iff.mp h
        exact absurd h throw_ne_ok

end Catalogue

end BoundQuery
