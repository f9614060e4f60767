import BoundQuery.Proofs.Applied
import BoundQuery.Proofs.Document
import BoundQuery.Proofs.Names
import BoundQuery.Proofs.Reader.Condition
import BoundQuery.Proofs.Vacuity

/-! What filters mean. A filter says of predicates which of them have to be true; the condition
that it is compiled to, read with its values, says the same. -/
namespace BoundQuery

/-- Whether a group holds, given whether all and any of its filters do. -/
def Connective.holds (all any : Bool) : Connective → Bool
  | .all => all
  | .any => any
  | .none => !any

namespace Filter

open Reader

def translation (scope : Scope) (tree : Value) : Option String :=
  match compile scope "root" tree {} with
  | .ok s _ => some s
  | .error _ _ => none

section Fields

variable (σ : Assignment) (field : Value)

/-- An item is looked for by its JSON text. -/
def containsHolds (v : Value) : Bool :=
  (Json.form? v).any fun t => σ ⟨field.text, .contains, [.str t]⟩

/-- A pattern is matched by its source, any other operand by itself. -/
def matchHolds : Value → Bool
  | .pattern source => σ ⟨field.text, .regexp, [.str source]⟩
  | operand => σ ⟨field.text, .regexp, [operand]⟩

def membersHold (m : Membership) (vs : List Value) : Bool :=
  match m with
  | .among => !vs.isEmpty && σ ⟨field.text, .within, vs⟩
  | .outside => vs.isEmpty || σ ⟨field.text, .outside, vs⟩
  | .containsAll => vs.all (containsHolds σ field)

/-- An operator whose operand holds no further operators. -/
def simpleHolds (operator : Operator) (operand : Value) : Bool :=
  match operator with
  | .compare c => σ ⟨field.text, .compare c, [operand]⟩
  | .member m => operand.sequence?.any (membersHold σ field m)
  | .present => σ ⟨field.text, if operand.truthy then .present else .null, []⟩
  | .size => σ ⟨field.text, .length, [operand]⟩
  | .element => containsHolds σ field operand
  | .regex => matchHolds σ field operand
  | .like => σ ⟨field.text, .like, [operand]⟩
  | .negation => !matchHolds σ field operand

mutual

/-- All operators of a field hold; a key without a mark compares the field itself. -/
def operatorsHold : List (Value × Value) → Bool
  | [] => true
  | (key, operand) :: es =>
    (match key.operator? with
      | some name => operatorHolds name operand
      | none => σ ⟨field.text, .compare .eq, [operand]⟩) && operatorsHold es

def operatorHolds (name : String) (operand : Value) : Bool :=
  match Operator.ofName? name, operand with
  | none, _ => false
  | some .negation, .map es => !operatorsHold es
  | some operator, operand => simpleHolds σ field operator operand

end

end Fields

mutual

def holds (scope : Scope) (σ : Assignment) : Value → Bool
  | .null => true
  | .map es => entriesHold scope σ es
  | _ => false

def entriesHold (scope : Scope) (σ : Assignment) : List (Value × Value) → Bool
  | [] => true
  | (key, value) :: es => entryHolds scope σ key value && entriesHold scope σ es

def entryHolds (scope : Scope) (σ : Assignment) (key : Value) (value : Value) : Bool :=
  match key.operator? with
  | some name =>
    match Connective.ofName? name, value with
    | some c, .list children => c.holds (allHold scope σ children) (anyHolds scope σ children)
    | some c, .tuple children => c.holds (allHold scope σ children) (anyHolds scope σ children)
    | _, _ => false
  | none =>
    match value with
    | .map es => operatorsHold σ key es
    | v => σ ⟨key.text, .compare .eq, [v]⟩

def allHold (scope : Scope) (σ : Assignment) : List Value → Bool
  | [] => true
  | child :: children => holds scope σ child && allHold scope σ children

/-- Some filter holds beside those that are written as the condition that always holds. -/
def anyHolds (scope : Scope) (σ : Assignment) : List Value → Bool
  | [] => false
  | child :: children =>
    (translation scope child ≠ some Dialect.alwaysTrue && holds scope σ child) ||
      anyHolds scope σ children

end

open Fragments

section Atoms

variable {field : Value} (hfield : PlainName field.text)

theorem matchHolds_eq (σ : Assignment) (v : Value) :
    matchHolds σ field v = σ ⟨field.text, .regexp, [patternSource v]⟩ := by
  cases v <;> rfl

theorem factor_of_run {fs : Fragments} {ts : List Token} {e : Expr}
    (hs : Scans fs.sql fs.params ts)
    (hrun : ∀ level outer, run ts (.expecting level outer) = some (.operand level outer e)) :
    Factor fs fun σ => e.eval σ :=
  ⟨ts, hs, fun level outer => ⟨e, hrun level outer, fun _ => rfl⟩⟩

/-- What is read as one predicate is true if the predicate is. -/
theorem atom_factor {fs : Fragments} {ts : List Token} {p : Predicate}
    (hs : Scans fs.sql fs.params ts)
    (hrun : ∀ level outer, run ts (.expecting level outer) = some (.operand level outer (.atom p))) :
    Factor fs fun σ => σ p :=
  factor_of_run hs hrun

theorem scans_listed (vs : List Value) :
    Scans (joined ", " (values vs)).sql (joined ", " (values vs)).params (listed vs) := by
  have hvalue : ∀ v, Scans (sql [.value v]) (params [.value v]) [.value v] := by
    intro v
    have htext : sql [.value v] = "?" := by simp [Fragment.sql]
    rw [Scans, htext]
    rfl
  have hcomma : Scans ", " [] [.comma] := by
    rw [Scans]
    rfl
  induction vs with
  | nil => exact (rfl : tokens [] [] = some [])
  | cons v vs ih =>
    cases vs with
    | nil => exact hvalue v
    | cons w vs => exact scans_joined_cons (hvalue v) ih hcomma rfl rfl

/-- A list in parentheses, after tokens that leave the reader inside an atom. -/
theorem listed_factor {before : String} {pre : List Token} {name : String} {r : Relation}
    {vs : List Value} (hne : vs ≠ []) (hpre : Scans before [] pre)
    (hlast : before.toList.getLast?.all separates = true)
    (hrun : ∀ level outer, run pre (.expecting level outer) = some (.inside pre level outer))
    (hatom : ∀ ts, atom? (pre ++ ts) = (members? ts).map fun vs => .atom ⟨name, r, vs⟩) :
    Factor (around before (joined ", " (values vs)) ")") fun σ =>
      σ ⟨name, r, vs⟩ := by
  have hclosing : Scans ")" [] [.closing] := by
    rw [Scans]
    rfl
  refine atom_factor (scans_around (scans_listed vs) hpre hclosing hlast rfl) fun level outer => ?_
  rw [List.append_assoc, run_append, hrun, Option.bind_eq_bind, Option.bind_some]
  exact (completes_listed hne hatom).run_inside (by simp)

include hfield

/-- After the name of a field, a text that does not go on with the name. -/
theorem scans_field {t : String} {vs : List Value} {ts : List Token}
    (ht : tokens (lexemes t.toList) vs = some ts) (hfirst : t.toList.head?.all separates = true) :
    Scans (field.text ++ t) vs (.name field.text :: ts) :=
  hfield.scans.append ht (.inr hfirst)

theorem comparison_factor (c : Comparison) (v : Value) :
    Factor (comparison field c.symbol v) fun σ => σ ⟨field.text, .compare c, [v]⟩ := by
  have hs : Scans (field.text ++ (" " ++ c.symbol ++ " ?")) [v]
      [.name field.text, .symbol c.symbol, .value v] := by
    cases c <;> exact scans_field hfield rfl rfl
  refine atom_factor (by simpa [String.append_assoc] using hs) fun level outer => ?_
  cases c <;> rfl

theorem containment_factor {v : Value} {t : String} (hv : v.json = .ok t) :
    Factor (containment field t) fun σ => containsHolds σ field v := by
  have hs : Scans ("JSON_CONTAINS(" ++ (field.text ++ ", ?)")) [.str t]
      [.name "JSON_CONTAINS", .opening, .name field.text, .comma, .value (.str t), .closing] := by
    have hbefore : Scans "JSON_CONTAINS(" [] [.name "JSON_CONTAINS", .opening] := by
      rw [Scans]
      rfl
    exact hbefore.append (scans_field hfield rfl rfl) (.inl rfl)
  simp only [containsHolds, Json.json_eq_ok_iff.mp hv, Option.any_some]
  exact atom_factor (by simpa [Dialect.jsonContains, String.append_assoc] using hs) fun _ _ => rfl

theorem patternMatch_factor (v : Value) :
    Factor (patternMatch field v) fun σ => matchHolds σ field v := by
  have hs : Scans (field.text ++ " REGEXP ?") [patternSource v]
      [.name field.text, .keyword .regexp, .value (patternSource v)] :=
    scans_field hfield rfl rfl
  simp only [matchHolds_eq]
  exact atom_factor (by simpa [Dialect.regexMatch] using hs) fun _ _ => rfl

theorem membersOf_factor {m : Membership} {vs : List Value} (hne : vs ≠ [])
    (hm : m ≠ .containsAll) : Factor (membersOf field m (values vs)) fun σ =>
      membersHold σ field m vs := by
  have hlast : ∀ s : String, s.toList.getLast? = some '(' →
      (field.text ++ s).toList.getLast?.all separates = true := by
    intro s hs
    rw [String.toList_append, List.getLast?_append, hs]
    rfl
  have hempty : vs.isEmpty = false := by simpa using hne
  cases m with
  | containsAll => exact absurd rfl hm
  | among =>
    have hpre : Scans (field.text ++ " IN (") [] [.name field.text, .keyword .within, .opening] :=
      scans_field hfield rfl rfl
    have hfactor := listed_factor hne hpre (hlast _ rfl) (fun _ _ => rfl) fun ts => rfl
    have htext : field.text ++ " " ++ "IN" ++ " (" = field.text ++ " IN (" := by
      simp [String.append_assoc]
    simpa [membersHold, hempty, membersOf, Membership.keyword, htext] using hfactor
  | outside =>
    have hpre : Scans (field.text ++ " NOT IN (") []
        [.name field.text, .keyword .not, .keyword .within, .opening] :=
      scans_field hfield rfl rfl
    have hfactor := listed_factor hne hpre (hlast _ rfl) (fun _ _ => rfl) fun ts => rfl
    have htext : field.text ++ " " ++ "NOT IN" ++ " (" = field.text ++ " NOT IN (" := by
      simp [String.append_assoc]
    simpa [membersHold, hempty, membersOf, Membership.keyword, htext] using hfactor

theorem contained_factor {vs : List Value} {texts : List String} (hne : vs ≠ [])
    (h : List.Forall₂ (fun v t => v.json = .ok t) vs texts) :
    Factor (around "(" (joined " AND " (texts.map (containment field))) ")") fun σ =>
      vs.all (containsHolds σ field) := by
  have hrows : List.Forall₂ Chain (texts.map (containment field))
      (vs.map fun v σ => containsHolds σ field v) := by
    rw [List.forall₂_map_left_iff, List.forall₂_map_right_iff]
    refine h.flip.imp fun t v ht => ?_
    exact (containment_factor hfield ht).chain
  have htexts : texts.map (containment field) ≠ [] := by
    cases h with
    | nil => exact absurd rfl hne
    | cons => simp
  simpa [List.all_map, Function.comp_def] using (chain_joined htexts hrows).whole.parenthesized

theorem length_factor (v : Value) : Factor [.text ("JSON_LENGTH(" ++ field.text ++ ") = "), .value v]
    fun σ => σ ⟨field.text, .length, [v]⟩ := by
  have hbefore : Scans "JSON_LENGTH(" [] [.name "JSON_LENGTH", .opening] := by
    rw [Scans]
    rfl
  have hs : Scans ("JSON_LENGTH(" ++ (field.text ++ ") = ?")) [v]
      [.name "JSON_LENGTH", .opening, .name field.text, .closing, .symbol "=", .value v] :=
    hbefore.append (scans_field hfield rfl rfl) (.inl rfl)
  exact atom_factor (by simpa [Fragment.sql, Fragment.params, String.append_assoc] using hs)
    fun _ _ => rfl

theorem like_factor (v : Value) : Factor [.text (field.text ++ " LIKE "), .value v]
    fun σ => σ ⟨field.text, .like, [v]⟩ := by
  have hs : Scans (field.text ++ " LIKE ?") [v]
      [.name field.text, .keyword .like, .value v] := scans_field hfield rfl rfl
  exact atom_factor (by simpa [Fragment.sql, Fragment.params, String.append_assoc] using hs)
    fun _ _ => rfl

theorem present_factor (b : Bool) :
    Factor [.text (field.text ++ if b then " IS NOT NULL" else " IS NULL")]
      fun σ => σ ⟨field.text, if b then .present else .null, []⟩ := by
  cases b with
  | true =>
    have hs : Scans (field.text ++ " IS NOT NULL") []
        [.name field.text, .keyword .is, .keyword .not, .keyword .null] :=
      scans_field hfield rfl rfl
    exact atom_factor (by simpa [Fragment.sql, Fragment.params] using hs) fun _ _ => rfl
  | false =>
    have hs : Scans (field.text ++ " IS NULL") []
        [.name field.text, .keyword .is, .keyword .null] := scans_field hfield rfl rfl
    exact atom_factor (by simpa [Fragment.sql, Fragment.params] using hs) fun _ _ => rfl

end Atoms

variable {V : Vocabulary} {field : Value}

theorem constant_factor (b : Bool) :
    Factor [.text (if b then Dialect.alwaysTrue else Dialect.alwaysFalse)] fun _ => b := by
  cases b with
  | true =>
    have hs : Scans Dialect.alwaysTrue [] [.name "1", .symbol "=", .name "1"] := by
      rw [Scans]
      rfl
    exact factor_of_run (e := .constant true) (by simpa [Fragment.sql, Fragment.params] using hs)
      fun _ _ => rfl
  | false =>
    have hs : Scans Dialect.alwaysFalse [] [.name "1", .symbol "=", .name "0"] := by
      rw [Scans]
      rfl
    exact factor_of_run (e := .constant false) (by simpa [Fragment.sql, Fragment.params] using hs)
      fun _ _ => rfl

theorem SpellsMembers.factor (hfield : PlainName field.text) {m : Membership} {vs : List Value}
    {fs : Fragments} (hfree : ItemsFree vs) (h : SpellsMembers V field m vs fs) :
    Factor fs fun σ => membersHold σ field m vs := by
  cases h with
  | empty =>
    cases m with
    | among => exact constant_factor false
    | outside => exact constant_factor true
    | containsAll => exact constant_factor true
  | mixed some => exact absurd hfree.any_isSubquery (by simp [some])
  | contained nonempty _ encoded => exact contained_factor hfield nonempty encoded
  | listed nonempty _ keyword => exact membersOf_factor hfield nonempty keyword

theorem SpellsSimple.factor (hfield : PlainName field.text) {operator : Operator} {v : Value}
    {fs : Fragments} (hfree : SubqueryFree v) (h : SpellsSimple V field operator v fs) :
    Factor fs fun σ => simpleHolds σ field operator v := by
  cases h with
  | compare c => exact comparison_factor hfield c v
  | @member m _ vs _ items members =>
    have hitems : ItemsFree vs := hfree.items items
    simpa [simpleHolds, items] using members.factor hfield hitems
  | present => exact present_factor hfield v.truthy
  | size => exact length_factor hfield v
  | element json => exact containment_factor hfield json
  | regex => exact patternMatch_factor hfield v
  | like => exact like_factor hfield v
  | negatedText s => exact (patternMatch_factor hfield (.str s)).chain.whole.negated
  | negatedPattern source => exact (patternMatch_factor hfield (.pattern source)).chain.whole.negated

theorem forall₂_chain {rows : List Fragments} {bs : List Meaning} (h : List.Forall₂ Factor rows bs) :
    List.Forall₂ Chain rows bs := h.imp fun _ _ hf => hf.chain

theorem fieldConjunction_factor {rows : List Fragments} {bs : List Meaning} (hne : rows ≠ [])
    (h : List.Forall₂ Factor rows bs) :
    Factor (fieldConjunction rows) fun σ => bs.all fun b => b σ := by
  have hjoined := (chain_joined hne (forall₂_chain h)).whole.parenthesized
  cases h with
  | nil => exact absurd rfl hne
  | @cons fs b rows bs hfirst hrest =>
    cases hrest with
    | nil => simpa [fieldConjunction] using hfirst
    | cons => exact hjoined

theorem SpellsOperators.ne_nil {e : Value × Value} {es : Entries} {rows : List Fragments} :
    SpellsOperators V field (e :: es) rows → rows ≠ []
  | .plain _ _ => List.cons_ne_nil _ _
  | .operator _ _ _ => List.cons_ne_nil _ _

mutual

theorem SpellsOperators.factors (hV : V.Plain) (hfield : PlainName field.text) {es : Entries}
    {rows : List Fragments} : SpellsOperators V field es rows → EntriesFree es →
      ∃ bs, List.Forall₂ Factor rows bs ∧ ∀ σ, bs.all (fun b => b σ) = operatorsHold σ field es
  | .nil, _ => ⟨[], .nil, fun σ => by rw [operatorsHold]; rfl⟩
  | @SpellsOperators.plain _ _ key operand es rows unmarked rest, hfree => by
    obtain ⟨-, hes⟩ := hfree
    obtain ⟨bs, hbs, hall⟩ := rest.factors hV hfield hes
    refine ⟨_, .cons (comparison_factor hfield .eq operand) hbs, fun σ => ?_⟩
    rw [List.all_cons, hall, operatorsHold, unmarked]
  | @SpellsOperators.operator _ _ key operand name fs es rows marked first rest, hfree => by
    obtain ⟨hoperand, hes⟩ := hfree
    have hfirst := first.factor hV hfield hoperand
    obtain ⟨bs, hbs, hall⟩ := rest.factors hV hfield hes
    refine ⟨_, .cons hfirst hbs, fun σ => ?_⟩
    rw [List.all_cons, hall, operatorsHold, marked]

theorem SpellsOperator.factor (hV : V.Plain) (hfield : PlainName field.text) {name : String}
    {operand : Value} {fs : Fragments} : SpellsOperator V field name operand fs →
      SubqueryFree operand → Factor fs fun σ => operatorHolds σ field name operand
  | .plugged registered _, _ => by
    rw [hV name] at registered
    cases registered
  | .subquery _ _, hfree => hfree.elim
  | .negation _ known operators, hfree => by
    obtain ⟨bs, hbs, hall⟩ := operators.factors hV hfield hfree
    have hne : _ ≠ [] := operators.ne_nil
    have hnegated := (fieldConjunction_factor hne hbs).chain.whole.negated
    simp only [operatorHolds.eq_def, known, ← hall]
    exact hnegated
  | @SpellsOperator.simple _ _ _ operator _ _ _ known _ applied, hfree => by
    have hsimple : ∀ σ, operatorHolds σ field name operand = simpleHolds σ field operator operand := by
      intro σ
      rw [operatorHolds.eq_def, known]
      cases applied <;> rfl
    simpa only [hsimple] using applied.factor hfield hfree

end

/-- A translation tells the vacuous filters from the others. -/
theorem translation_eq_iff {scope : Scope} (hs : scope.Plain) {tree : Value} :
    translation scope tree = some Dialect.alwaysTrue ↔ Vacuous tree := by
  constructor
  · intro h
    unfold translation at h
    split at h
    · rename_i s d hc
      obtain rfl := Option.some.inj h
      obtain ⟨-, -, hiff⟩ := compile_standing hs "root" _ _ _ hc
      exact hiff.mp rfl
    · cases h
  · intro h
    obtain ⟨j, hj⟩ := compile_vacuous hs h "root" {}
    rw [translation, hj]

theorem spelled_chain {c : Connective} {rows : List Fragments} {bs : List Meaning}
    (h : List.Forall₂ Whole rows bs) : Chain (c.spelled rows) fun σ =>
      c.holds (bs.all fun b => b σ) (bs.any fun b => b σ) := by
  have hparts : List.Forall₂ Factor (rows.map fun fs => around "(" fs ")") bs := by
    rw [List.forall₂_map_left_iff]
    exact h.imp fun _ _ hw => hw.parenthesized
  cases h with
  | nil =>
    cases c with
    | all => exact (constant_factor true).chain
    | any => exact (constant_factor false).chain
    | none => exact (constant_factor true).chain
  | @cons fs b rows bs hfirst hrest =>
    have hne : (fs :: rows).map (fun fs => around "(" fs ")") ≠ [] := by simp
    have hchoice := choice_joined hne (hparts.imp fun _ _ hf => hf.choice)
    cases c with
    | all => exact chain_joined hne (forall₂_chain hparts)
    | any => exact hchoice.whole.parenthesized.chain
    | none => exact hchoice.whole.negated.chain

theorem conjunction_chain {rows : List Fragments} {bs : List Meaning}
    (h : List.Forall₂ Chain rows bs) : Chain (conjunction rows) fun σ => bs.all fun b => b σ := by
  cases h with
  | nil => exact (constant_factor true).chain
  | cons hfirst hrest => exact chain_joined (List.cons_ne_nil _ _) (.cons hfirst hrest)

theorem entryHolds_group {scope : Scope} {σ : Assignment} {key value : Value} {name : String}
    {c : Connective} {children : List Value} (marked : key.operator? = some name)
    (known : Connective.ofName? name = some c) (sequence : value.sequence? = some children) :
    entryHolds scope σ key value =
      c.holds (allHold scope σ children) (anyHolds scope σ children) := by
  rw [entryHolds.eq_def]
  cases value with
  | list items => simp_all [Value.sequence?]
  | tuple items => simp_all [Value.sequence?]
  | _ => cases sequence

mutual

theorem Spells.chain {scope : Scope} (hs : scope.Plain) (hV : V.Plain) {tree : Value}
    {fs : Fragments} : Spells V tree fs → Names PlainName tree → SubqueryFree tree →
      Chain fs fun σ => holds scope σ tree
  | .null, _, _ => by
    simpa only [holds, List.all_nil] using conjunction_chain .nil
  | .map entries, hn, hfree => by
    obtain ⟨bs, hbs, hall⟩ := entries.chains hs hV hn hfree
    simpa only [holds, ← hall] using conjunction_chain hbs

theorem SpellsEntries.chains {scope : Scope} (hs : scope.Plain) (hV : V.Plain) {es : Entries}
    {rows : List Fragments} : SpellsEntries V es rows → EntriesNames PlainName es →
      EntriesFree es → ∃ bs, List.Forall₂ Chain rows bs ∧
        ∀ σ, bs.all (fun b => b σ) = entriesHold scope σ es
  | .nil, _, _ => ⟨[], .nil, fun σ => by rw [entriesHold]; rfl⟩
  | .silent first nothing rest, hn, hfree => by
    obtain ⟨bs, hbs, hall⟩ := rest.chains hs hV hn.2 hfree.2
    rcases first.chain hs hV hn.1 hfree.1 with ⟨-, hholds⟩ | hchain
    · exact ⟨bs, hbs, fun σ => by rw [entriesHold, hholds, Bool.true_and, hall]⟩
    · exact absurd nothing hchain.sql_ne_empty
  | .cons first something rest, hn, hfree => by
    obtain ⟨bs, hbs, hall⟩ := rest.chains hs hV hn.2 hfree.2
    rcases first.chain hs hV hn.1 hfree.1 with ⟨rfl, -⟩ | hchain
    · exact absurd rfl something
    · exact ⟨_, .cons hchain hbs, fun σ => by rw [entriesHold, List.all_cons, hall]⟩

theorem SpellsEntry.chain {scope : Scope} (hs : scope.Plain) (hV : V.Plain) {key value : Value}
    {fs : Fragments} : SpellsEntry V key value fs → EntryNames PlainName key value →
      SubqueryFree value → (fs = [] ∧ ∀ σ, entryHolds scope σ key value = true) ∨
        Chain fs fun σ => entryHolds scope σ key value
  | .group marked known sequence filters, hn, hfree => by
    obtain ⟨bs, hbs, hall, hany⟩ :=
      filters.wholes hs hV (hn.children marked sequence) (hfree.items sequence)
    refine .inr ?_
    simp only [entryHolds_group marked known sequence, ← hall, ← hany]
    exact spelled_chain hbs
  | .subquery _ _, _, hfree => hfree.elim
  | .operators unmarked operators, hn, hfree => by
    obtain ⟨bs, hbs, hall⟩ := operators.factors hV (hn.text unmarked) hfree
    simp only [entryHolds.eq_def, unmarked, ← hall]
    cases hbs with
    | nil => exact .inl ⟨rfl, fun σ => rfl⟩
    | cons hfirst hrest =>
      exact .inr (fieldConjunction_factor (List.cons_ne_nil _ _) (.cons hfirst hrest)).chain
  | .literal unmarked single flat, hn, _ => by
    have hchain := (comparison_factor (hn.text unmarked) .eq value).chain
    simp only [entryHolds.eq_def, unmarked]
    cases value with
    | map es => cases flat
    | _ => exact .inr hchain

theorem SpellsChildren.wholes {scope : Scope} (hs : scope.Plain) (hV : V.Plain)
    {children : List Value} {rows : List Fragments} : SpellsChildren V children rows →
      ChildrenNames PlainName children → ItemsFree children →
      ∃ bs, List.Forall₂ Whole rows bs ∧
        (∀ σ, bs.all (fun b => b σ) = allHold scope σ children) ∧
        ∀ σ, bs.any (fun b => b σ) = anyHolds scope σ children
  | .nil, _, _ => ⟨[], .nil, fun σ => by rw [allHold]; rfl, fun σ => by rw [anyHolds]; rfl⟩
  | .vacuous first always rest, hn, hfree => by
    have hfirst := (first.chain hs hV hn.1 hfree.1).whole
    obtain ⟨bs, hbs, hall, hany⟩ := rest.wholes hs hV hn.2 hfree.2
    have hstanding := first.standing hV
    have hsql := always.resolve_left hstanding.ne_empty
    have hparams := params_eq_nil (first.tidy hV.tidyHandlers) always
    have htranslation := (translation_eq_iff hs).mpr (hstanding.trivial_iff.mpr hsql)
    refine ⟨bs, hbs, fun σ => ?_, fun σ => ?_⟩
    · rw [allHold, hfirst.of_alwaysTrue hsql hparams, Bool.true_and, hall]
    · simp [anyHolds, htranslation, hany]
  | .cons first restricting rest, hn, hfree => by
    have hfirst := (first.chain hs hV hn.1 hfree.1).whole
    obtain ⟨bs, hbs, hall, hany⟩ := rest.wholes hs hV hn.2 hfree.2
    have htranslation : translation scope (.map _) ≠ some Dialect.alwaysTrue := fun h =>
      restricting (.inr ((first.standing hV).trivial_iff.mp ((translation_eq_iff hs).mp h)))
    refine ⟨_, .cons hfirst hbs, fun σ => ?_, fun σ => ?_⟩
    · rw [allHold, List.all_cons, hall]
    · simp [anyHolds, htranslation, hany]

end

section Bare

variable {scope : Scope} (σ : Assignment)

/-- Only the filters of a group are compiled, to tell which of them count. -/
theorem entryHolds_congr {scope' : Scope} {key value : Value}
    (h : ∀ name children, key.operator? = some name → value.sequence? = some children →
      allHold scope σ children = allHold scope' σ children ∧
        anyHolds scope σ children = anyHolds scope' σ children) :
    entryHolds scope σ key value = entryHolds scope' σ key value := by
  rw [entryHolds.eq_def, entryHolds.eq_def scope']
  cases hname : key.operator? with
  | none => rfl
  | some name =>
    dsimp only
    cases Connective.ofName? name with
    | none => cases value <;> rfl
    | some c =>
      cases value with
      | list children =>
        obtain ⟨hall, hany⟩ := h name children hname rfl
        simp only [hall, hany]
      | tuple children =>
        obtain ⟨hall, hany⟩ := h name children hname rfl
        simp only [hall, hany]
      | _ => rfl

mutual

theorem holds_bare : (tree : Value) → Agree scope.registry {} (applied tree) →
    holds scope σ tree = holds scope.bare σ tree
  | .map es, h => by
    rw [applied] at h
    rw [holds, holds, entriesHold_bare es h]
  | .null, _ | .bool _, _ | .int _, _ | .real _, _ | .str _, _ | .bytes _, _ | .pattern _, _
  | .foreign _, _ | .subquery _, _ | .record _ _, _ | .list _, _ | .tuple _, _ => by
    simp only [holds]

theorem entriesHold_bare : (es : List (Value × Value)) →
    Agree scope.registry {} (entriesApplied es) →
      entriesHold scope σ es = entriesHold scope.bare σ es
  | [], _ => by rw [entriesHold, entriesHold]
  | (key, value) :: es, h => by
    rw [entriesApplied, agree_append] at h
    rw [entriesHold, entriesHold, entryHolds_bare key value h.1, entriesHold_bare es h.2]

theorem entryHolds_bare (key : Value) : (value : Value) →
    Agree scope.registry {} (entryApplied key value) →
      entryHolds scope σ key value = entryHolds scope.bare σ key value
  | .list children, h => entryHolds_congr σ fun name items hname hitems => by
    obtain rfl := Option.some.inj hitems
    simp only [entryApplied.eq_def, hname] at h
    exact childrenHold_bare children h
  | .tuple children, h => entryHolds_congr σ fun name items hname hitems => by
    obtain rfl := Option.some.inj hitems
    simp only [entryApplied.eq_def, hname] at h
    exact childrenHold_bare children h
  | .map _, _ | .null, _ | .bool _, _ | .int _, _ | .real _, _ | .str _, _ | .bytes _, _
  | .pattern _, _ | .foreign _, _ | .subquery _, _ | .record _ _, _ => entryHolds_congr σ nofun

theorem childrenHold_bare : (children : List Value) →
    Agree scope.registry {} (childrenApplied children) →
      allHold scope σ children = allHold scope.bare σ children ∧
        anyHolds scope σ children = anyHolds scope.bare σ children
  | [], _ => by simp only [allHold, anyHolds, and_self]
  | child :: children, h => by
    rw [childrenApplied, agree_append] at h
    obtain ⟨hall, hany⟩ := childrenHold_bare children h.2
    have htranslation : translation scope child = translation scope.bare child := by
      rw [translation, translation, Unplugged.compile_bare h.1]
    rw [allHold, allHold, anyHolds, anyHolds, holds_bare child h.1, hall, hany, htranslation]
    exact ⟨rfl, rfl⟩

end

end Bare

/-- With plain names, no sub-queries and no handler for any of its operators, the condition that a
filter is compiled to is read as an expression, which is true under an assignment if and only if
the filter holds. -/
theorem compile_preserves_meaning {scope : Scope} {context : String} {tree : Value}
    (hunplugged : Unplugged scope tree) (hnames : Names PlainName tree) (hfree : SubqueryFree tree)
    {d d' : Draft} {s : String} (h : compile scope context tree d = .ok s d') :
    ∃ vs e, d'.params = d.params ++ vs ∧ read s vs = some e ∧
      ∀ σ, e.eval σ = holds scope σ tree := by
  have hs : scope.bare.Plain := fun _ => rfl
  rw [hunplugged.compile_bare] at h
  obtain ⟨vs, hvs, fs, hfs, rfl, rfl⟩ := (compile_spelled hs.appends.within).1 context tree d s d' h
  obtain ⟨e, he, heval⟩ := (hfs.chain hs hs.vocabulary hnames hfree).whole.read_eq
  exact ⟨fs.params, e, hvs, he, fun σ => (heval σ).trans (holds_bare σ tree hunplugged).symm⟩

/-- `$or` beside a field, with an empty filter in it, over `$nor` and several operators. -/
def nestedFilter : Value :=
  .map [(.str "a", .map [(.str "$all", .list [.str "x", .list []])]), (.str "$or", .list [.map [],
    .map [(.str "b", .map [(.str "$gt", .int 2), (.str "$in", .list [.int 3, .int 4])])],
    .map [(.str "$nor", .list [.map [(.str "c.d", .map [(.str "$not", .pattern "^x")])]])]])]

theorem nestedFilter_preserves_meaning :
    ∃ s d, compile ⟨{}, fun _ => throw .unfit⟩ "root" nestedFilter {} = .ok s d ∧
      ∃ e, read s d.params = some e ∧ ∀ σ, e.eval σ =
        holds ⟨{}, fun _ => throw .unfit⟩ σ nestedFilter := by
  have hnames : Names PlainName nestedFilter := by
    refine ⟨?_, ⟨trivial, ⟨?_, trivial⟩, ⟨⟨⟨?_, trivial⟩, trivial⟩, trivial⟩, trivial⟩, trivial⟩
    · exact (by decide : PlainName "a")
    · exact (by decide : PlainName "b")
    · exact (by decide : PlainName "c.d")
  have hfree : SubqueryFree nestedFilter := by
    simp [nestedFilter, SubqueryFree, EntriesFree, ItemsFree]
  obtain ⟨s, d, h⟩ : ∃ s d, compile ⟨{}, fun _ => throw .unfit⟩ "root" nestedFilter {} = .ok s d :=
    ⟨_, _, rfl⟩
  obtain ⟨vs, e, hvs, he, heval⟩ :=
    compile_preserves_meaning (fun _ _ => rfl) hnames hfree h
  rw [List.nil_append] at hvs
  exact ⟨s, d, h, e, hvs ▸ he, heval⟩

end Filter

end BoundQuery
