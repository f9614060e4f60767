import BoundQuery.Filter.Operator
import BoundQuery.Proofs.Reader.Token
import Mathlib.Data.List.Forall2

/-! Conditions read as boolean expressions. The tokens are read once, from left to right; NOT binds
more tightly than AND, and AND more tightly than OR. -/
namespace BoundQuery.Reader

inductive Relation where
  | compare (c : Comparison)
  | within
  | outside
  | null
  | present
  | length
  | contains
  | regexp
  | like
deriving DecidableEq

/-- What is not taken apart: a relation of a field to values. -/
structure Predicate where
  field : String
  relation : Relation
  values : List Value

abbrev Assignment := Predicate → Bool

inductive Expr where
  | constant (b : Bool)
  | atom (p : Predicate)
  | not (e : Expr)
  | and (e f : Expr)
  | or (e f : Expr)

def Expr.eval (σ : Assignment) : Expr → Bool
  | constant b => b
  | atom p => σ p
  | not e => !e.eval σ
  | and e f => e.eval σ && f.eval σ
  | or e f => e.eval σ || f.eval σ

def comparison? (s : String) : Option Comparison :=
  [Comparison.eq, .ne, .gt, .ge, .lt, .le].find? fun c => c.symbol = s

/-- The values of a list, up to its closing parenthesis. -/
def members? : List Token → Option (List Value)
  | [.value v, .closing] => some [v]
  | .value v :: .comma :: ts => (members? ts).map (v :: ·)
  | _ => none

/-- The expression that tokens stand for, where no part of them is an expression. -/
def atom? : List Token → Option Expr
  | [.name f, .symbol s, .value v] => (comparison? s).map fun c => .atom ⟨f, .compare c, [v]⟩
  | [.name "1", .symbol "=", .name "1"] => some (.constant true)
  | [.name "1", .symbol "=", .name "0"] => some (.constant false)
  | [.name f, .keyword .is, .keyword .null] => some (.atom ⟨f, .null, []⟩)
  | [.name f, .keyword .is, .keyword .not, .keyword .null] => some (.atom ⟨f, .present, []⟩)
  | [.name f, .keyword .regexp, .value v] => some (.atom ⟨f, .regexp, [v]⟩)
  | [.name f, .keyword .like, .value v] => some (.atom ⟨f, .like, [v]⟩)
  | [.name "JSON_LENGTH", .opening, .name f, .closing, .symbol "=", .value v] =>
    some (.atom ⟨f, .length, [v]⟩)
  | [.name "JSON_CONTAINS", .opening, .name f, .comma, .value v, .closing] =>
    some (.atom ⟨f, .contains, [v]⟩)
  | .name f :: .keyword .within :: .opening :: ts =>
    (members? ts).map fun vs => .atom ⟨f, .within, vs⟩
  | .name f :: .keyword .not :: .keyword .within :: .opening :: ts =>
    (members? ts).map fun vs => .atom ⟨f, .outside, vs⟩
  | _ => none

/-- What has been read at one depth of parentheses, where an operand is expected: the disjunction
and the conjunction that it goes into, and how often it is negated. -/
structure Level where
  disjunction : Option Expr := none
  conjunction : Option Expr := none
  negations : Nat := 0

/-- The levels around the present one are kept, the innermost first. -/
inductive State where
  | expecting (level : Level) (outer : List Level)
  | inside (ts : List Token) (level : Level) (outer : List Level)
  | having (disjunction : Option Expr) (conjunction : Expr) (outer : List Level)

def conjoin : Option Expr → Expr → Expr
  | none, e => e
  | some c, e => .and c e

def disjoin : Option Expr → Expr → Expr
  | none, e => e
  | some d, e => .or d e

def negate : Nat → Expr → Expr
  | 0, e => e
  | n + 1, e => .not (negate n e)

def State.operand (level : Level) (outer : List Level) (e : Expr) : State :=
  .having level.disjunction (conjoin level.conjunction (negate level.negations e)) outer

def step : State → Token → Option State
  | .expecting level outer, .keyword .not =>
    some (.expecting { level with negations := level.negations + 1 } outer)
  | .expecting level outer, .opening => some (.expecting {} (level :: outer))
  | .expecting level outer, t => some (.inside [t] level outer)
  | .inside ts level outer, t =>
    match atom? (ts ++ [t]) with
    | some e => some (.operand level outer e)
    | none => some (.inside (ts ++ [t]) level outer)
  | .having d c outer, .keyword .and => some (.expecting ⟨d, some c, 0⟩ outer)
  | .having d c outer, .keyword .or => some (.expecting ⟨some (disjoin d c), none, 0⟩ outer)
  | .having d c (level :: outer), .closing => some (.operand level outer (disjoin d c))
  | .having _ _ _, _ => none

def run (ts : List Token) (s : State) : Option State := ts.foldlM step s

def read (text : String) (values : List Value) : Option Expr := do
  let ts ← tokens (lexemes text.toList) values
  match ← run ts (.expecting {} []) with
  | .having d c [] => some (disjoin d c)
  | _ => none

example : read "a = ? OR b <> ? AND NOT (c IS NULL)" [.int 1, .int 2] =
    some (.or (.atom ⟨"a", .compare .eq, [.int 1]⟩)
      (.and (.atom ⟨"b", .compare .ne, [.int 2]⟩) (.not (.atom ⟨"c", .null, []⟩)))) := by
  rfl

theorem run_append (ts us : List Token) (s : State) : run (ts ++ us) s = run ts s >>= run us :=
  List.foldlM_append

theorem run_cons (t : Token) (ts : List Token) (s : State) : run (t :: ts) s = step s t >>= run ts :=
  List.foldlM_cons

abbrev Meaning := Assignment → Bool

/-- The fragments are read as one operand, wherever one is expected. -/
def Factor (fs : Fragments) (b : Meaning) : Prop :=
  ∃ ts, Scans fs.sql fs.params ts ∧ ∀ level outer, ∃ e,
    run ts (.expecting level outer) = some (.operand level outer e) ∧ ∀ σ, e.eval σ = b σ

/-- The fragments are read as part of a conjunction. -/
def Chain (fs : Fragments) (b : Meaning) : Prop :=
  ∃ ts, Scans fs.sql fs.params ts ∧ ∀ d c outer, ∃ c',
    run ts (.expecting ⟨d, c, 0⟩ outer) = some (.having d c' outer) ∧
      ∀ σ, c'.eval σ = (c.all (Expr.eval σ) && b σ)

def Choice (fs : Fragments) (b : Meaning) : Prop :=
  ∃ ts, Scans fs.sql fs.params ts ∧ ∀ d outer, ∃ d' c',
    run ts (.expecting ⟨d, none, 0⟩ outer) = some (.having d' c' outer) ∧
      ∀ σ, (disjoin d' c').eval σ = (d.any (Expr.eval σ) || b σ)

def Whole (fs : Fragments) (b : Meaning) : Prop :=
  ∃ ts, Scans fs.sql fs.params ts ∧ ∀ outer, ∃ d c,
    run ts (.expecting {} outer) = some (.having d c outer) ∧ ∀ σ, (disjoin d c).eval σ = b σ

section Composition

variable {fs gs : Fragments} {b b' : Meaning}

theorem eval_conjoin (σ : Assignment) (c : Option Expr) (e : Expr) :
    (conjoin c e).eval σ = (c.all (Expr.eval σ) && e.eval σ) := by
  cases c <;> simp [conjoin, Expr.eval]

theorem eval_disjoin (σ : Assignment) (d : Option Expr) (e : Expr) :
    (disjoin d e).eval σ = (d.any (Expr.eval σ) || e.eval σ) := by
  cases d <;> simp [disjoin, Expr.eval]

theorem Factor.chain (h : Factor fs b) : Chain fs b := by
  obtain ⟨ts, hts, hrun⟩ := h
  refine ⟨ts, hts, fun d c outer => ?_⟩
  obtain ⟨e, he, hb⟩ := hrun ⟨d, c, 0⟩ outer
  exact ⟨_, he, fun σ => by rw [negate, eval_conjoin, hb]⟩

theorem Factor.choice (h : Factor fs b) : Choice fs b := by
  obtain ⟨ts, hts, hrun⟩ := h
  refine ⟨ts, hts, fun d outer => ?_⟩
  obtain ⟨e, he, hb⟩ := hrun ⟨d, none, 0⟩ outer
  exact ⟨_, _, he, fun σ => by rw [negate, conjoin, eval_disjoin, hb]⟩

theorem Chain.whole (h : Chain fs b) : Whole fs b := by
  obtain ⟨ts, hts, hrun⟩ := h
  refine ⟨ts, hts, fun outer => ?_⟩
  obtain ⟨c, hc, hb⟩ := hrun none none outer
  exact ⟨none, c, hc, fun σ => by rw [disjoin, hb]; rfl⟩

theorem Choice.whole (h : Choice fs b) : Whole fs b := by
  obtain ⟨ts, hts, hrun⟩ := h
  refine ⟨ts, hts, fun outer => ?_⟩
  obtain ⟨d, c, hc, hb⟩ := hrun none outer
  exact ⟨d, c, hc, fun σ => by rw [hb]; rfl⟩

/-- A conjunction is not read from nothing. -/
theorem Chain.sql_ne_empty (h : Chain fs b) : fs.sql ≠ "" := by
  obtain ⟨ts, hts, hrun⟩ := h
  intro hempty
  obtain ⟨c, hc, -⟩ := hrun none none []
  have hnone : ts = [] := by
    rw [Scans, hempty] at hts
    cases hp : fs.params with
    | nil =>
      rw [hp] at hts
      exact (Option.some.inj hts).symm
    | cons v vs =>
      rw [hp] at hts
      cases hts
  rw [hnone] at hc
  cases hc

theorem Whole.parenthesized (h : Whole fs b) : Factor (.around "(" fs ")") b := by
  obtain ⟨ts, hts, hrun⟩ := h
  have hopening : Scans "(" [] [.opening] := by rw [Scans]; rfl
  have hclosing : Scans ")" [] [.closing] := by rw [Scans]; rfl
  refine ⟨[.opening] ++ ts ++ [.closing], scans_around hts hopening hclosing rfl rfl,
    fun level outer => ?_⟩
  obtain ⟨d, c, hc, hb⟩ := hrun (level :: outer)
  refine ⟨disjoin d c, ?_, hb⟩
  rw [List.append_assoc, List.singleton_append, run_cons]
  simp only [step, Option.bind_eq_bind, Option.bind_some, run_append, hc]
  rfl

theorem Whole.negated (h : Whole fs b) : Factor (.around "NOT (" fs ")") fun σ => !b σ := by
  obtain ⟨ts, hts, hrun⟩ := h
  have hopening : Scans "NOT (" [] [.keyword .not, .opening] := by rw [Scans]; rfl
  have hclosing : Scans ")" [] [.closing] := by rw [Scans]; rfl
  refine ⟨[.keyword .not, .opening] ++ ts ++ [.closing], scans_around hts hopening hclosing rfl rfl,
    fun level outer => ?_⟩
  obtain ⟨d, c, hc, hb⟩ := hrun ({ level with negations := level.negations + 1 } :: outer)
  refine ⟨.not (disjoin d c), ?_, fun σ => by rw [Expr.eval, hb]⟩
  have hnegate : ∀ n e, negate (n + 1) e = negate n (.not e) := by
    intro n e
    induction n with
    | zero => rfl
    | succ n ih => rw [negate, ih, negate]
  rw [List.append_assoc, List.cons_append, List.singleton_append, run_cons]
  simp only [step, Option.bind_eq_bind, Option.bind_some, run_cons, run_append, hc]
  simp [run, State.operand, hnegate]

theorem chain_joined {rows : List Fragments} {bs : List Meaning} (hne : rows ≠ [])
    (h : List.Forall₂ Chain rows bs) :
    Chain (.joined " AND " rows) fun σ => bs.all fun b => b σ := by
  induction h with
  | nil => exact absurd rfl hne
  | @cons fs b rows bs hfirst hrest ih =>
    cases hrest with
    | nil => simpa [Fragments.joined] using hfirst
    | @cons gs b' rows bs _ _ =>
      obtain ⟨ts, hts, hrun⟩ := hfirst
      obtain ⟨us, hus, hrun'⟩ := ih (List.cons_ne_nil _ _)
      have hand : Scans " AND " [] [.keyword .and] := by rw [Scans]; rfl
      refine ⟨ts ++ [.keyword .and] ++ us, scans_joined_cons hts hus hand rfl rfl,
        fun d c outer => ?_⟩
      obtain ⟨c₁, hc₁, hb₁⟩ := hrun d c outer
      obtain ⟨c₂, hc₂, hb₂⟩ := hrun' d (some c₁) outer
      refine ⟨c₂, ?_, fun σ => ?_⟩
      · rw [List.append_assoc, run_append, hc₁, Option.bind_eq_bind, Option.bind_some,
          List.singleton_append, run_cons]
        exact hc₂
      · simp [hb₂, hb₁, Bool.and_assoc]

theorem choice_joined {rows : List Fragments} {bs : List Meaning} (hne : rows ≠ [])
    (h : List.Forall₂ Choice rows bs) :
    Choice (.joined " OR " rows) fun σ => bs.any fun b => b σ := by
  induction h with
  | nil => exact absurd rfl hne
  | @cons fs b rows bs hfirst hrest ih =>
    cases hrest with
    | nil => simpa [Fragments.joined] using hfirst
    | @cons gs b' rows bs _ _ =>
      obtain ⟨ts, hts, hrun⟩ := hfirst
      obtain ⟨us, hus, hrun'⟩ := ih (List.cons_ne_nil _ _)
      have hor : Scans " OR " [] [.keyword .or] := by rw [Scans]; rfl
      refine ⟨ts ++ [.keyword .or] ++ us, scans_joined_cons hts hus hor rfl rfl,
        fun d outer => ?_⟩
      obtain ⟨d₁, c₁, hc₁, hb₁⟩ := hrun d outer
      obtain ⟨d₂, c₂, hc₂, hb₂⟩ := hrun' (some (disjoin d₁ c₁)) outer
      refine ⟨d₂, c₂, ?_, fun σ => ?_⟩
      · rw [List.append_assoc, run_append, hc₁, Option.bind_eq_bind, Option.bind_some,
          List.singleton_append, run_cons]
        exact hc₂
      · simp [hb₂, hb₁, Bool.or_assoc]

/-- What is read as a whole condition has the meaning of the fragments. -/
theorem Whole.read_eq (h : Whole fs b) :
    ∃ e, read fs.sql fs.params = some e ∧ ∀ σ, e.eval σ = b σ := by
  obtain ⟨ts, hts, hrun⟩ := h
  obtain ⟨d, c, hc, hb⟩ := hrun []
  refine ⟨disjoin d c, ?_, hb⟩
  simp only [read, show tokens (lexemes fs.sql.toList) fs.params = some ts from hts,
    Option.bind_eq_bind, Option.bind_some, hc]

/-- What is read from the condition that always holds is true. -/
theorem Whole.of_alwaysTrue (h : Whole fs b) (hsql : fs.sql = Dialect.alwaysTrue)
    (hparams : fs.params = []) (σ : Assignment) : b σ = true := by
  obtain ⟨e, he, hb⟩ := h.read_eq
  have hread : read Dialect.alwaysTrue [] = some (.constant true) := rfl
  rw [hsql, hparams, hread] at he
  obtain rfl := Option.some.inj he
  exact (hb σ).symm

end Composition

section Atoms

variable {e : Expr} {level : Level} {outer : List Level}

/-- No proper part of the tokens that begins with the first is an atom, but all of them are. -/
structure Completes (pre ts : List Token) (e : Expr) : Prop where
  part : ∀ us, us <+: ts → us ≠ [] → us ≠ ts → atom? (pre ++ us) = none
  all : atom? (pre ++ ts) = some e

theorem Completes.run_inside {pre ts : List Token} (hne : ts ≠ []) (h : Completes pre ts e) :
    run ts (.inside pre level outer) = some (.operand level outer e) := by
  induction ts generalizing pre with
  | nil => exact absurd rfl hne
  | cons t ts ih =>
    rw [run_cons]
    cases ts with
    | nil =>
      simp only [step, h.all]
      rfl
    | cons u ts =>
      have hpart : atom? (pre ++ [t]) = none := h.part [t] (by simp) (by simp) (by simp)
      have hnext : Completes (pre ++ [t]) (u :: ts) e := by
        refine ⟨fun us hus hne hproper => ?_, ?_⟩
        · have hmore := h.part (t :: us) (by simpa using hus) (by simp) (by simpa using hproper)
          simpa using hmore
        · simpa using h.all
      simp only [step, hpart, Option.bind_eq_bind, Option.bind_some]
      exact ih (List.cons_ne_nil _ _) hnext

def listed : List Value → List Token
  | [] => []
  | [v] => [.value v]
  | v :: w :: vs => .value v :: .comma :: listed (w :: vs)

theorem members?_listed {vs : List Value} (hne : vs ≠ []) :
    members? (listed vs ++ [.closing]) = some vs := by
  fun_induction listed vs with
  | case1 => exact absurd rfl hne
  | case2 v => rfl
  | case3 v w vs ih => simp [members?, ih (List.cons_ne_nil _ _)]

theorem closing_not_mem_listed (vs : List Value) : Token.closing ∉ listed vs := by
  fun_induction listed vs with
  | case1 => simp
  | case2 v => simp
  | case3 v w vs ih => simp [ih]

theorem members?_eq_none {ts : List Token} (h : Token.closing ∉ ts) : members? ts = none := by
  fun_induction members? ts with
  | case1 v => simp at h
  | case2 v ts ih =>
    simp only [List.mem_cons, not_or] at h
    simp [ih h.2.2]
  | case3 => rfl

/-- A list is complete with its closing parenthesis and not before. -/
theorem completes_listed {vs : List Value} (hne : vs ≠ []) {pre : List Token} {f : List Value → Expr}
    (hpre : ∀ ts, atom? (pre ++ ts) = (members? ts).map f) :
    Completes pre (listed vs ++ [.closing]) (f vs) := by
  refine ⟨fun us hus _ hproper => ?_, ?_⟩
  · have hfront : us <+: listed vs := by
      rcases List.prefix_concat_iff.mp (by simpa using hus) with h | h
      · exact absurd (by simpa using h) hproper
      · exact h
    rw [hpre, members?_eq_none fun hmem => closing_not_mem_listed vs (hfront.subset hmem)]
    rfl
  · rw [hpre, members?_listed hne]
    rfl

end Atoms

end BoundQuery.Reader
