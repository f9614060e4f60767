import Mathlib.Data.Finset.Card
import Mathlib.Data.Finset.Filter
import Mathlib.Data.Finset.Range
import Mathlib.Logic.Relation
import Mathlib.Order.Monotone.Basic
import BoundQuery.Proofs.Compiled
import BoundQuery.Proofs.Run
import BoundQuery.Proofs.Steady

/-! Sub-queries in sub-queries. More fuel changes only what would run out of it, and a sub-query
that can be compiled at all needs no more fuel than there are such sub-queries. So fuel never
decides what a sub-query gives, and what is kept for a sub-query is what it gives. -/
namespace BoundQuery

namespace Work

variable {α : Type} {J : Journal → Prop} {F : Error → Prop}

/-- The work succeeds, or fails in one of the given ways. -/
def Ends (F : Error → Prop) : EStateM.Result Error Journal α → Prop
  | .ok _ _ => True
  | .error e _ => F e

theorem Ends.mono {F' : Error → Prop} (h : ∀ e, F e → F' e) {r : EStateM.Result Error Journal α}
    (hr : Ends F r) : Ends F' r := by
  cases r with
  | ok a j => exact hr
  | error e j => exact h e hr

def Stays (J : Journal → Prop) (w : Work α) : Prop := ∀ j, J j → J (after w j)

/-- From the given journals, where the first ends so, the second does the same. -/
def Follows (J : Journal → Prop) (F : Error → Prop) (w w' : Work α) : Prop :=
  ∀ j, J j → Ends F (w j) → w' j = w j

theorem Stays.bind {β : Type} {w : Work α} {f : α → Work β} (hw : Stays J w)
    (hf : ∀ a, Stays J (f a)) : Stays J (w >>= f) := by
  intro j hj
  have hafter := hw j hj
  simp only [after, Bind.bind, EStateM.bind] at hafter ⊢
  cases hwj : w j with
  | ok a k =>
    rw [hwj] at hafter
    exact hf a k hafter
  | error e k =>
    rw [hwj] at hafter
    exact hafter

theorem Stays.closed (hJ : ∀ j e, J j → J (j.note e)) : Closed fun _ w => Stays J w where
  pure _ _ hj := hj
  bind := .bind
  throw _ _ hj := hj
  note e j hj := hJ j e hj

namespace Follows

variable {w w' w'' : Work α}

theorem refl (w : Work α) : Follows J F w w := fun _ _ _ => rfl

theorem bind {β : Type} {f f' : α → Work β} (hstays : Stays J w) (hw : Follows J F w w')
    (hf : ∀ a, Follows J F (f a) (f' a)) : Follows J F (w >>= f) (w' >>= f') := by
  intro j hj hends
  have hafter := hstays j hj
  have hsame := hw j hj
  simp only [after, Bind.bind, EStateM.bind] at hafter hends ⊢
  cases hwj : w j with
  | ok a k =>
    rw [hwj] at hafter hends hsame
    rw [hsame trivial]
    exact hf a k hafter hends
  | error e k =>
    rw [hwj] at hends hsame
    rw [hsame hends]

theorem trans (h : Follows J F w w') (h' : Follows J F w' w'') : Follows J F w w'' := by
  intro j hj hends
  have hsame := h j hj hends
  rw [← hsame] at hends
  rw [h' j hj hends, hsame]

theorem mono {F' : Error → Prop} (hF : ∀ e, F' e → F e) (h : Follows J F w w') :
    Follows J F' w w' := fun j hj hends => h j hj (hends.mono hF)

theorem congruence (hJ : ∀ j e, J j → J (j.note e)) :
    Congruence fun _ w w' => Stays J w ∧ Follows J F w w' where
  pure a := ⟨(Stays.closed hJ).pure a, refl _⟩
  bind hw hf := ⟨hw.1.bind fun a => (hf a).1, bind hw.1 hw.2 fun a => (hf a).2⟩
  throw e := ⟨(Stays.closed hJ).throw e, refl _⟩
  note e := ⟨(Stays.closed hJ).note e, refl _⟩

end Follows

section Fuel

variable {x : Nat → Nat → Work Statement} (hmore : ∀ n id, Follows J F (x n id) (x (n + 1) id))

include hmore

theorem follows_of_le {n m : Nat} (h : n ≤ m) (id : Nat) : Follows J F (x n id) (x m id) := by
  induction m, h using Nat.le_induction with
  | base => exact .refl _
  | succ m _ ih => exact ih.trans (hmore m id)

theorem ends_of_le {n m : Nat} (h : n ≤ m) {id : Nat} {j : Journal} (hj : J j)
    (hends : Ends F (x n id j)) : Ends F (x m id j) := by
  have hsame := follows_of_le hmore h id j hj hends
  rwa [hsame]

open Classical in
/-- Fuel up to the number of the sub-queries that depend on it is enough. The sub-queries that end
with fuel `n` become more with `n`; if none is new with one more, none is new from there on. -/
theorem follows_card (D : Finset Nat) (j₀ : Journal) (hj₀ : J j₀)
    (hother : ∀ n id, id ∉ D → Follows J F (x (n + 1) id) (x n id))
    (hstep : ∀ n, (∀ id, Follows J F (x (n + 1) id) (x n id)) →
      ∀ id, Follows J F (x (n + 2) id) (x (n + 1) id))
    (huniform : ∀ n id j j', J j → J j' → Ends F (x n id j) → Ends F (x n id j'))
    (n id : Nat) : Follows J F (x n id) (x D.card id) := by
  let settled (n : Nat) : Finset Nat := D.filter fun id => Ends F (x n id j₀)
  have hmono : Monotone settled := fun n m h =>
    Finset.monotone_filter_right D fun id _ => ends_of_le hmore h hj₀
  have hless : ∀ {n m}, n ≤ m → settled m = settled n → ∀ id ∈ D,
      Follows J F (x m id) (x n id) := by
    intro n m hle hsettled id hid j hj hends
    have hm : id ∈ settled m := Finset.mem_filter.mpr ⟨hid, huniform m id j j₀ hj hj₀ hends⟩
    rw [hsettled] at hm
    have hn := huniform n id j₀ j hj₀ hj (Finset.mem_filter.mp hm).2
    exact (follows_of_le hmore hle id j hj hn).symm
  have hstable : ∀ m, (settled m).card = (settled (m + 1)).card →
      (settled (m + 1)).card = (settled (m + 2)).card := by
    intro m hcard
    have hsettled := Finset.eq_of_subset_of_card_le (hmono m.le_succ) hcard.ge
    have hfewer : ∀ id, Follows J F (x (m + 1) id) (x m id) := fun id =>
      if hid : id ∈ D then hless m.le_succ hsettled.symm id hid else hother m id hid
    refine congrArg Finset.card (Finset.Subset.antisymm (hmono (m + 1).le_succ) fun id hid => ?_)
    obtain ⟨hid, hends⟩ := Finset.mem_filter.mp hid
    have hsame := hstep m hfewer id j₀ hj₀ hends
    rw [← hsame] at hends
    exact Finset.mem_filter.mpr ⟨hid, hends⟩
  rcases Nat.le_total n D.card with hle | hle
  · exact follows_of_le hmore hle id
  by_cases hid : id ∈ D
  · have hcard := Nat.stabilises_of_monotone (fun n m h => Finset.card_le_card (hmono h))
      (fun m => Finset.card_filter_le D _) hstable hle
    exact hless hle (Finset.eq_of_subset_of_card_le (hmono hle) hcard.le).symm id hid
  · induction n, hle using Nat.le_induction with
    | base => exact .refl _
    | succ m _ ih => exact (hother m id hid).trans ih

end Fuel

end Work

namespace Catalogue

variable (c : Catalogue)

/-- The sub-query, with the given statements for the sub-queries in it. -/
def nested (embed : Nat → Work Statement) (id : Nat) : Work Statement :=
  match c.targets[id]? with
  | some (.source source) => do keep id (← c.compileSource embed source)
  | some (.subquery inner) => do
    discard (remembered embed inner)
    throw .unfit
  | none => throw .unfit

theorem embed_succ (n id : Nat) : c.embed (n + 1) id = c.nested (c.embed n) id := rfl

section Target

variable {c} {embed : Nat → Work Statement} {id : Nat}

theorem nested_source {source : Nat} (h : c.targets[id]? = some (.source source)) :
    c.nested embed id = c.compileSource embed source >>= keep id := by
  simp only [nested, h]

theorem nested_subquery {inner : Nat} (h : c.targets[id]? = some (.subquery inner)) :
    c.nested embed id = remembered embed inner >>= fun _ => throw .unfit := by
  have hdiscard : discard (remembered embed inner) = remembered embed inner >>= fun _ => pure () :=
    map_eq_pure_bind _ (remembered embed inner)
  simp only [nested, h, hdiscard, bind_assoc, pure_bind]

theorem nested_none (h : c.targets[id]? = none) : c.nested embed id = throw .unfit := by
  simp only [nested, h]

theorem get_bind_run {β : Type} (f : Journal → Work β) (j : Journal) : (get >>= f) j = f j j := rfl

theorem kept_of_keep {s t : Statement} {j k : Journal} (h : keep id s j = .ok t k) :
    k.kept = (j.keep id t).kept := by
  rw [keep, get_bind_run] at h
  split at h <;> obtain ⟨rfl, rfl⟩ := h <;> rfl

theorem nested_eq_ok_iff {j k : Journal} {t : Statement} :
    c.nested embed id j = .ok t k ↔ ∃ source s l, c.targets[id]? = some (.source source) ∧
      c.compileSource embed source j = .ok s l ∧ keep id s l = .ok t k := by
  cases htarget : c.targets[id]? with
  | none => simp [nested_none htarget, throw_ne_ok]
  | some target =>
    cases target with
    | source source => simp [nested_source htarget, bind_eq_ok_iff]
    | subquery inner => simp [nested_subquery htarget, bind_eq_ok_iff, throw_ne_ok]

end Target

theorem remembered_of_some {embed : Nat → Work Statement} {id : Nat} {j : Journal} {s : Statement}
    (h : j.kept id = some s) : remembered embed id j = .ok s j := by
  rw [remembered, get_bind_run, h]
  rfl

theorem remembered_of_none {embed : Nat → Work Statement} {id : Nat} {j : Journal}
    (h : j.kept id = none) : remembered embed id j = embed id j := by
  rw [remembered, get_bind_run, h]

section Follows

open Work

variable {c} {J : Journal → Prop} {F : Error → Prop} {embed embed' : Nat → Work Statement}

theorem remembered_stays {id : Nat} (h : Stays J (embed id)) : Stays J (remembered embed id) := by
  intro j hj
  cases hkept : j.kept id with
  | none =>
    have hsame : after (remembered embed id) j = after (embed id) j := by
      rw [after, after, remembered_of_none hkept]
    rw [hsame]
    exact h j hj
  | some s =>
    rw [after, remembered_of_some hkept]
    exact hj

theorem remembered_follows {id : Nat} (h : Follows J F (embed id) (embed' id)) :
    Follows J F (remembered embed id) (remembered embed' id) := by
  intro j hj hends
  cases hkept : j.kept id with
  | none =>
    rw [remembered_of_none hkept] at hends ⊢
    rw [remembered_of_none hkept, h j hj hends]
  | some s => rw [remembered_of_some hkept, remembered_of_some hkept]

theorem nested_follows (hJ : ∀ j e, J j → J (j.note e)) (hstays : ∀ id, Stays J (embed id))
    (h : ∀ id, Follows J F (embed id) (embed' id)) (id : Nat) :
    Follows J F (c.nested embed id) (c.nested embed' id) := by
  have hR := Follows.congruence (F := F) hJ
  cases htarget : c.targets[id]? with
  | none =>
    rw [nested_none htarget, nested_none htarget]
    exact .refl _
  | some target =>
    cases target with
    | source source =>
      obtain ⟨hstays, hfollows⟩ := c.compileSource_related hR source
        fun inner _ => ⟨hstays inner, h inner⟩
      rw [nested_source htarget, nested_source htarget]
      exact hfollows.bind hstays fun _ => .refl _
    | subquery inner =>
      rw [nested_subquery htarget, nested_subquery htarget]
      exact (remembered_follows (h inner)).bind (remembered_stays (hstays inner)) fun _ => .refl _

end Follows

section Height

open Work

/-- What does not run out of fuel does the same with more of it. -/
theorem embed_follows_succ (n id : Nat) :
    Follows (fun _ => True) (· ≠ .circular) (c.embed n id) (c.embed (n + 1) id) := by
  induction n generalizing id with
  | zero => exact fun j _ hends => absurd rfl hends
  | succ n ih => exact nested_follows (fun _ _ h => h) (fun _ _ h => h) ih id

theorem embed_follows {n m : Nat} (h : n ≤ m) (id : Nat) :
    Follows (fun _ => True) (· ≠ .circular) (c.embed n id) (c.embed m id) :=
  follows_of_le c.embed_follows_succ h id

theorem embed_eq_ok_of_le {n m : Nat} (h : n ≤ m) {id : Nat} {j k : Journal} {s : Statement}
    (hs : c.embed n id j = .ok s k) : c.embed m id j = .ok s k := by
  have hends : Ends (· ≠ .circular) (c.embed n id j) := by rw [hs]; trivial
  rw [c.embed_follows h id j trivial hends, hs]

theorem lt_of_embed_returns {n id : Nat} {s : Statement} (h : (c.embed n id).Returns s) :
    id < c.targets.length := by
  obtain ⟨j, k, hs⟩ := h
  rcases Nat.lt_or_ge id c.targets.length with hlt | hge
  · exact hlt
  · cases n with
    | zero => exact absurd hs throw_ne_ok
    | succ n =>
      simp only [embed, List.getElem?_eq_none hge] at hs
      exact absurd hs throw_ne_ok

open Classical in
noncomputable def compilable : Finset Nat :=
  (Finset.range c.targets.length).filter fun id => ∃ n s, (c.embed n id).Returns s

theorem mem_compilable {id : Nat} : id ∈ c.compilable ↔ ∃ n s, (c.embed n id).Returns s := by
  simp only [compilable, Finset.mem_filter, Finset.mem_range, and_iff_right_iff_imp]
  rintro ⟨n, s, h⟩
  exact c.lt_of_embed_returns h

theorem compilable_subset : c.compilable ⊆ Finset.range c.targets.length := by
  intro id hid
  obtain ⟨n, s, h⟩ := c.mem_compilable.mp hid
  exact Finset.mem_range.mpr (c.lt_of_embed_returns h)

theorem card_compilable_le : c.compilable.card ≤ c.targets.length := by
  simpa using Finset.card_le_card c.compilable_subset

/-- A sub-query that can be compiled needs no more fuel than there are such sub-queries. -/
theorem embed_eq_ok_card {n id : Nat} {j k : Journal} {s : Statement}
    (hs : c.embed n id j = .ok s k) : c.embed c.compilable.card id j = .ok s k := by
  have hmore (n id : Nat) : Follows (fun _ => True) (fun _ => False) (c.embed n id)
      (c.embed (n + 1) id) := (c.embed_follows_succ n id).mono fun _ => False.elim
  have hother : ∀ n id, id ∉ c.compilable → Follows (fun _ => True) (fun _ => False)
      (c.embed (n + 1) id) (c.embed n id) := by
    intro n id hid j _ hends
    cases hr : c.embed (n + 1) id j with
    | ok s k => exact absurd (c.mem_compilable.mpr ⟨_, s, j, k, hr⟩) hid
    | error e k =>
      rw [hr] at hends
      exact hends.elim
  have huniform : ∀ n id j j', True → True → Ends (fun _ => False) (c.embed n id j) →
      Ends (fun _ => False) (c.embed n id j') := by
    intro n id j j' _ _ hends
    cases hr : c.embed n id j with
    | ok s k =>
      obtain ⟨k', hr'⟩ := ((c.embed_steady n id).returns_iff j').mp ⟨j, k, hr⟩
      rw [hr']
      trivial
    | error e k =>
      rw [hr] at hends
      exact hends.elim
  have hfollows := follows_card hmore c.compilable {} trivial hother
    (fun n h => nested_follows (fun _ _ h => h) (fun _ _ h => h) h) huniform n id
  rw [hfollows j trivial (by rw [hs]; trivial), hs]

theorem embed_depth_eq_ok {n id : Nat} {j k : Journal} {s : Statement}
    (hs : c.embed n id j = .ok s k) : c.embed c.depth id j = .ok s k :=
  c.embed_eq_ok_of_le (Nat.le_succ_of_le c.card_compilable_le) (c.embed_eq_ok_card hs)

/-- A sub-query gives the statement of its source, in parentheses. -/
theorem embed_depth_returns_iff {id : Nat} {t : Statement} : (c.embed c.depth id).Returns t ↔
    ∃ source s, c.targets[id]? = some (.source source) ∧
      (c.compileSource (c.embed c.depth) source).Returns s ∧ t = ⟨"(" ++ s.sql ++ ")", s.params⟩ := by
  constructor
  · rintro ⟨j, k, h⟩
    obtain ⟨source, s, l, hsource, hs, hkeep⟩ :=
      nested_eq_ok_iff.mp (c.embed_eq_ok_of_le c.depth.le_succ h)
    obtain ⟨l', hl'⟩ := keep_eq id s l
    obtain ⟨rfl, -⟩ := EStateM.Result.ok.inj (hkeep.symm.trans hl')
    exact ⟨source, s, hsource, ⟨j, l, hs⟩, rfl⟩
  · rintro ⟨source, s, hsource, ⟨j, l, hs⟩, rfl⟩
    obtain ⟨l', hl'⟩ := keep_eq id s l
    have hmore := nested_eq_ok_iff.mpr ⟨source, s, l, hsource, hs, hl'⟩
    exact ⟨j, l', c.embed_depth_eq_ok (n := c.depth + 1) hmore⟩

end Height

section Keeps

variable {α : Type}

/-- For each sub-query the second journal keeps what the first does, or what the sub-query gives. -/
def Grows (j k : Journal) : Prop := ∀ id, k.kept id = j.kept id ∨
  ∃ s, (c.embed c.depth id).Returns s ∧ k.kept id = some s

theorem Grows.trans {c : Catalogue} {j k l : Journal} (h : c.Grows j k) (h' : c.Grows k l) :
    c.Grows j l := by
  intro id
  rcases h' id with hsame | hnew
  · rw [hsame]
    exact h id
  · exact .inr hnew

def Keeps (w : Work α) : Prop := ∀ j, c.Grows j (after w j)

theorem Keeps.bind {c : Catalogue} {β : Type} {w : Work α} {f : α → Work β} (hw : c.Keeps w)
    (hf : ∀ a, c.Keeps (f a)) : c.Keeps (w >>= f) :=
  fun j => Work.Stays.bind (fun _ h => h.trans (hw _)) (fun a _ h => h.trans (hf a _)) j
    fun _ => .inl rfl

theorem keeps_closed : Work.Closed fun _ w => c.Keeps w where
  pure _ _ _ := .inl rfl
  bind := .bind
  throw _ _ _ := .inl rfl
  note _ _ _ := .inl rfl

theorem remembered_keeps {embed : Nat → Work Statement} {id : Nat} (h : c.Keeps (embed id)) :
    c.Keeps (remembered embed id) :=
  fun j => remembered_stays (fun _ hj => hj.trans (h _)) j fun _ => .inl rfl

theorem keep_grows {id : Nat} {s t : Statement} {j k : Journal} (h : keep id s j = .ok t k)
    (hid : (c.embed c.depth id).Returns t) : c.Grows j k := by
  intro i
  by_cases hi : i = id
  · subst hi
    exact .inr ⟨t, hid, by rw [kept_of_keep h, Journal.kept_keep_self]⟩
  · exact .inl (by rw [kept_of_keep h, Journal.kept_keep_of_ne _ _ hi])

theorem nested_keeps {embed : Nat → Work Statement} {id : Nat} (h : ∀ inner, c.Keeps (embed inner))
    (hid : ∀ j s k, c.nested embed id j = .ok s k → (c.embed c.depth id).Returns s) :
    c.Keeps (c.nested embed id) := by
  cases htarget : c.targets[id]? with
  | none =>
    rw [nested_none htarget]
    exact c.keeps_closed.throw _
  | some target =>
    cases target with
    | source source =>
      have hsource := (c.compileSource_related c.keeps_closed.congruence source
        fun inner _ => ⟨rfl, h inner⟩).2
      rw [nested_source htarget] at hid ⊢
      intro j
      have hgrows := hsource j
      cases hs : c.compileSource embed source j with
      | ok s k =>
        obtain ⟨l, hl⟩ := keep_eq id s k
        have hok := bind_eq_ok_iff.mpr ⟨s, k, hs, hl⟩
        rw [after, hs] at hgrows
        rw [after, hok]
        exact hgrows.trans (c.keep_grows hl (hid _ _ _ hok))
      | error e k =>
        have herror : (c.compileSource embed source >>= keep id) j = .error e k := by
          simp only [Bind.bind, EStateM.bind, hs]
        rw [after, hs] at hgrows
        rwa [after, herror]
    | subquery inner =>
      rw [nested_subquery htarget]
      exact (c.remembered_keeps (h inner)).bind fun _ => c.keeps_closed.throw _

theorem embed_keeps (n id : Nat) : c.Keeps (c.embed n id) := by
  induction n generalizing id with
  | zero => exact c.keeps_closed.throw _
  | succ n ih =>
    exact c.nested_keeps ih fun j s k hs => ⟨j, k, c.embed_depth_eq_ok (n := n + 1) hs⟩

end Keeps

section Reach

/-- The second sub-query may be compiled in order to compile the first. -/
def Nests (id inner : Nat) : Prop :=
  (∃ source, c.targets[id]? = some (.source source) ∧ c.Asks source inner) ∨
    c.targets[id]? = some (.subquery inner)

abbrev Within (inner id : Nat) : Prop := Relation.ReflTransGen c.Nests id inner

variable {c} {id other : Nat}

theorem keep_stays (h : other ≠ id) (s : Statement) (p : Option Statement) :
    Work.Stays (fun j => j.kept other = p) (keep id s) := by
  intro j hj
  obtain ⟨k, hk⟩ := keep_eq id s j
  rw [after, hk]
  exact (congrFun (kept_of_keep hk) other).trans ((Journal.kept_keep_of_ne j _ h).trans hj)

/-- Compiling a sub-query leaves alone what is kept for those that are not in it. -/
theorem embed_stays (h : ¬ c.Within other id) (n : Nat) (p : Option Statement) :
    Work.Stays (fun j => j.kept other = p) (c.embed n id) := by
  have hclosed := Work.Stays.closed (J := fun j => j.kept other = p) fun _ _ hj => hj
  have hR := hclosed.congruence
  induction n generalizing id with
  | zero => exact hclosed.throw _
  | succ n ih =>
    have hinner : ∀ inner, c.Nests id inner → ¬ c.Within other inner :=
      fun inner hnests hwithin => h (.head hnests hwithin)
    rw [embed_succ]
    cases htarget : c.targets[id]? with
    | none =>
      rw [nested_none htarget]
      exact hclosed.throw _
    | some target =>
      cases target with
      | source source =>
        have hsource := (c.compileSource_related hR source fun inner hasks =>
          ⟨rfl, ih (hinner inner (.inl ⟨source, htarget, hasks⟩))⟩).2
        have hne : other ≠ id := fun heq => h (heq ▸ .refl)
        rw [nested_source htarget]
        exact hsource.bind fun s => keep_stays hne s p
      | subquery inner =>
        have hremembered := remembered_stays (ih (hinner inner (.inr htarget)))
        rw [nested_subquery htarget]
        exact hremembered.bind fun _ => hclosed.throw _

end Reach

end Catalogue

end BoundQuery
