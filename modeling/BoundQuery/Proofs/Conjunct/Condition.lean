import BoundQuery.Proofs.Discipline.Filter
import BoundQuery.Proofs.Conjunct.Words

/-! Conditions that no handler takes part in are conjunctions of pieces that hold together: each
`OR`, and each `AND` of an inner filter, stands in parentheses. -/
namespace BoundQuery

/-- A name that is one word, and none that joins conditions. -/
def Text.OneWord (s : String) : Prop := Lacks ' ' s ∧ s ≠ "AND" ∧ s ≠ "OR"

instance (s : String) : Decidable (Text.OneWord s) :=
  inferInstanceAs (Decidable (Text.Lacks ' ' s ∧ s ≠ "AND" ∧ s ≠ "OR"))

theorem Text.OneWord.unjoined {s : String} (h : OneWord s) (hs : ParenFree s) : Unjoined s :=
  .word hs h.1 h.2.1 h.2.2

def Text.Enclosed (s : String) : Prop := ∃ t, Balanced t ∧ s = "(" ++ t ++ ")"

theorem Text.Enclosed.unjoined {s : String} (h : Enclosed s) : Unjoined s := by
  obtain ⟨t, ht, rfl⟩ := h
  have hempty : Unjoined ("" ++ "(" ++ t ++ ")") := .enclosed (by decide) (by decide) ht
  rwa [String.empty_append] at hempty

/-- There are no handlers, and sub-queries are written in parentheses. -/
structure Vocabulary.Encloses (V : Vocabulary) : Prop where
  handler : ∀ name, V.handler name = none
  subquery : ∀ ref s, V.subquery ref s → Text.Enclosed s.sql

theorem Vocabulary.Encloses.keeps {V : Vocabulary} (hV : V.Encloses) : V.Keeps .balanced where
  handler name write _ _ _ hwrite := by
    rw [hV.handler name] at hwrite
    cases hwrite
  subquery ref s hs d := (hV.subquery ref s hs).unjoined.balanced.leads d

namespace Filter

open Fragments Text

variable {V : Vocabulary} {field : Value}

/-- What follows the name of a field holds together with it. -/
theorem unjoined_field (hf : OneWord field.text) (hp : ParenFree field.text) {rest : String}
    (hrest : Unjoined rest) : Unjoined (field.text ++ " " ++ rest) :=
  (hf.unjoined hp).append hrest

theorem comparison_unjoined (hf : OneWord field.text) (hp : ParenFree field.text) {symbol : String}
    (hs : Unjoined symbol) (v : Value) : Unjoined (comparison field symbol v).sql := by
  have hvalue : Unjoined "?" := by decide
  have hsql : (comparison field symbol v).sql = field.text ++ " " ++ (symbol ++ " " ++ "?") := by
    rw [sql_comparison]
    simp only [String.append_assoc]
    rfl
  exact hsql ▸ unjoined_field hf hp (hs.append hvalue)

theorem containment_unjoined (hp : ParenFree field.text) (json : String) :
    Unjoined (containment field json).sql := by
  have hinner : Balanced (field.text ++ ", ?") := hp.balanced.append (by decide)
  have hsql : (containment field json).sql =
      "JSON_CONTAINS" ++ "(" ++ (field.text ++ ", ?") ++ ")" := by
    rw [sql_containment, Dialect.jsonContains]
    simp only [String.append_assoc]
    rfl
  exact hsql ▸ .enclosed (by decide) (by decide) hinner

theorem patternMatch_unjoined (hf : OneWord field.text) (hp : ParenFree field.text) (v : Value) :
    Unjoined (patternMatch field v).sql := by
  have hsql : (patternMatch field v).sql = field.text ++ " " ++ "REGEXP ?" := by
    rw [sql_patternMatch, Dialect.regexMatch, String.append_assoc]
    rfl
  exact hsql ▸ unjoined_field hf hp (by decide)

theorem enclosed_unjoined {fs : Fragments} (h : Balanced fs.sql) :
    Unjoined (around "(" fs ")").sql := by
  rw [sql_around]
  exact Enclosed.unjoined ⟨fs.sql, h, rfl⟩

theorem negated_unjoined {fs : Fragments} (h : Balanced fs.sql) :
    Unjoined (around "NOT (" fs ")").sql := by
  have hnot : Unjoined "NOT" := by decide
  have hsql : (around "NOT (" fs ")").sql = "NOT" ++ " " ++ ("(" ++ fs.sql ++ ")") := by
    rw [sql_around]
    simp only [String.append_assoc]
    rfl
  exact hsql ▸ hnot.append (Enclosed.unjoined ⟨fs.sql, h, rfl⟩)

theorem balanced_joined {separator : String} (hs : Balanced separator) {rows : List Fragments}
    (h : ∀ fs ∈ rows, Balanced fs.sql) : Balanced (joined separator rows).sql := by
  rw [sql_joined]
  exact hs.intercalate (List.forall_mem_map.mpr h)

theorem membersOf_unjoined (hf : OneWord field.text) (hp : ParenFree field.text) (m : Membership)
    {items : List Fragments} (h : ∀ fs ∈ items, Balanced fs.sql) :
    Unjoined (membersOf field m items).sql := by
  have hkeyword : Unjoined m.keyword := by cases m <;> decide
  have hitems : Balanced (joined ", " items).sql := balanced_joined (by decide) h
  have hsql : (membersOf field m items).sql =
      field.text ++ " " ++ (m.keyword ++ " " ++ ("(" ++ (joined ", " items).sql ++ ")")) := by
    rw [membersOf, sql_around]
    simp only [String.append_assoc]
    rfl
  exact hsql ▸ unjoined_field hf hp (hkeyword.append (Enclosed.unjoined ⟨_, hitems, rfl⟩))

theorem rowsOf_unjoined (hf : OneWord field.text) (hp : ParenFree field.text) {keyword : String}
    (hk : Unjoined keyword) {s : Statement} (hs : Enclosed s.sql) :
    Unjoined (rowsOf field keyword s).sql := by
  have hsql : (rowsOf field keyword s).sql = field.text ++ " " ++ (keyword ++ " " ++ s.sql) := by
    rw [sql_rowsOf]
    simp only [String.append_assoc]
  exact hsql ▸ unjoined_field hf hp (hk.append hs.unjoined)

theorem SpellsMembers.unjoined (hV : V.Encloses) (hf : OneWord field.text)
    (hp : ParenFree field.text) {m : Membership} {vs : List Value} {fs : Fragments}
    (h : SpellsMembers V field m vs fs) : Unjoined fs.sql := by
  cases h with
  | empty =>
    rw [sql_cons, sql_nil, String.append_empty]
    cases m <;> decide
  | mixed _ items => exact membersOf_unjoined hf hp m fun fs hfs => items.keeps hV.keeps fs hfs 0
  | contained =>
    refine enclosed_unjoined (balanced_joined (by decide) fun fs hfs => ?_)
    obtain ⟨t, -, rfl⟩ := List.mem_map.mp hfs
    exact (containment_unjoined hp t).balanced
  | listed =>
    exact membersOf_unjoined hf hp m fun fs hfs => Keeps.values (D := .balanced) vs fs hfs 0

theorem SpellsSimple.unjoined (hV : V.Encloses) (hf : OneWord field.text)
    (hp : ParenFree field.text) {operator : Operator} {v : Value} {fs : Fragments}
    (h : SpellsSimple V field operator v fs) : Unjoined fs.sql := by
  cases h with
  | compare c => exact comparison_unjoined hf hp (by cases c <;> decide) v
  | member _ members => exact members.unjoined hV hf hp
  | present v =>
    have hrest : Unjoined (if v.truthy then "IS NOT NULL" else "IS NULL") := by split <;> decide
    have hsql : Fragments.sql
        [.text (field.text ++ if v.truthy then " IS NOT NULL" else " IS NULL")] =
          field.text ++ " " ++ (if v.truthy then "IS NOT NULL" else "IS NULL") := by
      rw [sql_cons, sql_nil, String.append_empty, String.append_assoc]
      cases v.truthy <;> rfl
    exact hsql ▸ unjoined_field hf hp hrest
  | size v =>
    have hlength : Unjoined ("JSON_LENGTH" ++ "(" ++ field.text ++ ")") :=
      .enclosed (by decide) (by decide) hp.balanced
    have hvalue : Unjoined "= ?" := by decide
    have hsql : Fragments.sql [.text ("JSON_LENGTH(" ++ field.text ++ ") = "), .value v] =
        "JSON_LENGTH" ++ "(" ++ field.text ++ ")" ++ " " ++ "= ?" := by
      simp only [sql_cons, sql_nil, Fragment.sql, String.append_assoc]
      rfl
    exact hsql ▸ hlength.append hvalue
  | element => exact containment_unjoined hp _
  | regex => exact patternMatch_unjoined hf hp v
  | like v =>
    have hsql : Fragments.sql [.text (field.text ++ " LIKE "), .value v] =
        field.text ++ " " ++ "LIKE ?" := by
      simp only [sql_cons, sql_nil, Fragment.sql, String.append_assoc]
      rfl
    exact hsql ▸ unjoined_field hf hp (by decide)
  | negatedText => exact negated_unjoined (patternMatch_unjoined hf hp _).balanced
  | negatedPattern => exact negated_unjoined (patternMatch_unjoined hf hp _).balanced

theorem SpellsOperator.unjoined (hV : V.Encloses) (hf : OneWord field.text)
    (hp : ParenFree field.text) {name : String} {operand : Value} {fs : Fragments}
    (h : SpellsOperator V field name operand fs) : Unjoined fs.sql := by
  cases h with
  | plugged registered =>
    rw [hV.handler name] at registered
    cases registered
  | subquery _ embedded =>
    exact rowsOf_unjoined hf hp (by split <;> decide) (hV.subquery _ _ embedded)
  | negation _ _ operators =>
    exact negated_unjoined (fieldConjunction_keeps (operators.keeps hV.keeps hp) 0)
  | simple _ _ _ simple => exact simple.unjoined hV hf hp

theorem SpellsOperators.unjoined (hV : V.Encloses) (hf : OneWord field.text)
    (hp : ParenFree field.text) {es : Entries} {rows : List Fragments}
    (h : SpellsOperators V field es rows) : ∀ fs ∈ rows, Unjoined fs.sql := by
  cases h with
  | nil => simp
  | plain _ rest =>
    have hrest := rest.unjoined hV hf hp
    exact List.forall_mem_cons.mpr ⟨comparison_unjoined hf hp (by decide) _, hrest⟩
  | operator _ first rest =>
    have hrest := rest.unjoined hV hf hp
    exact List.forall_mem_cons.mpr ⟨first.unjoined hV hf hp, hrest⟩

theorem fieldConjunction_unjoined {rows : List Fragments} (h : ∀ fs ∈ rows, Unjoined fs.sql) :
    Unjoined (fieldConjunction rows).sql := by
  match rows with
  | [] => exact (by decide : Unjoined "")
  | [fs] => exact h fs List.mem_cons_self
  | fs :: gs :: rows =>
    exact enclosed_unjoined (balanced_joined (by decide) fun fs hfs => (h fs hfs).balanced)

/-- The filters of a group are each in parentheses, and what an `OR` joins is in them once more. -/
theorem spelled_conjoined (c : Connective) {rows : List Fragments}
    (h : ∀ fs ∈ rows, Balanced fs.sql) : Conjoined (c.spelled rows).sql := by
  have hparts : ∀ fs ∈ rows.map fun fs => around "(" fs ")", Unjoined fs.sql := by
    intro fs hfs
    obtain ⟨gs, hgs, rfl⟩ := List.mem_map.mp hfs
    exact enclosed_unjoined (h gs hgs)
  have hor : Balanced (joined " OR " (rows.map fun fs => around "(" fs ")")).sql :=
    balanced_joined (by decide) fun fs hfs => (hparts fs hfs).balanced
  cases rows with
  | nil =>
    have htrue : Unjoined Dialect.alwaysTrue := by decide
    have hfalse : Unjoined Dialect.alwaysFalse := by decide
    cases c with
    | all => exact htrue.conjoined
    | any => exact hfalse.conjoined
    | none => exact htrue.conjoined
  | cons fs rows =>
    cases c with
    | all => exact ⟨_, by simp, List.forall_mem_map.mpr hparts, sql_joined ..⟩
    | any => exact (enclosed_unjoined hor).conjoined
    | none => exact (negated_unjoined hor).conjoined

theorem SpellsEntry.conjoined (hV : V.Encloses) {key value : Value} {fs : Fragments}
    (hwords : EntryNames OneWord key value) (hparens : EntryNames ParenFree key value)
    (h : SpellsEntry V key value fs) : Conjoined fs.sql := by
  cases h with
  | @group _ _ _ c _ _ marked _ sequence filters =>
    have hrows := filters.keeps hV.keeps (hparens.children marked sequence)
    exact spelled_conjoined c fun fs hfs => hrows fs hfs 0
  | subquery unmarked embedded =>
    exact (rowsOf_unjoined (hwords.text unmarked) (hparens.text unmarked) (by decide)
      (hV.subquery _ _ embedded)).conjoined
  | operators unmarked operators =>
    exact (fieldConjunction_unjoined
      (operators.unjoined hV (hwords.text unmarked) (hparens.text unmarked))).conjoined
  | literal unmarked =>
    exact (comparison_unjoined (hwords.text unmarked) (hparens.text unmarked) (by decide)
      _).conjoined

theorem SpellsEntries.conjoined (hV : V.Encloses) {es : Entries} {rows : List Fragments}
    (hwords : EntriesNames OneWord es) (hparens : EntriesNames ParenFree es)
    (h : SpellsEntries V es rows) : ∀ fs ∈ rows, Conjoined fs.sql := by
  cases h with
  | nil => simp
  | silent _ _ rest => exact rest.conjoined hV hwords.2 hparens.2
  | cons first _ rest =>
    have hrest := rest.conjoined hV hwords.2 hparens.2
    exact List.forall_mem_cons.mpr ⟨first.conjoined hV hwords.1 hparens.1, hrest⟩

/-- A condition is a conjunction of pieces that hold together. -/
theorem Spells.conjoined (hV : V.Encloses) {tree : Value} {fs : Fragments}
    (hwords : Names OneWord tree) (hparens : Names ParenFree tree) (h : Spells V tree fs) :
    Conjoined fs.sql := by
  cases h with
  | null => exact (by decide : Unjoined Dialect.alwaysTrue).conjoined
  | @map es rows entries =>
    have hrows := entries.conjoined hV hwords hparens
    cases rows with
    | nil => exact (by decide : Unjoined Dialect.alwaysTrue).conjoined
    | cons fs rows =>
      rw [conjunction, sql_joined]
      · exact .join (by simp) (List.forall_mem_map.mpr hrows)
      · simp

end Filter

end BoundQuery
