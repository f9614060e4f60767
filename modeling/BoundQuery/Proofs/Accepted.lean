import BoundQuery.Proofs.Spelled

/-! What can be spelled is compiled: if the handlers and sub-queries that a spelling uses give the
same in every state, then compiling the filter returns the text of the spelling and binds its
values. -/
namespace BoundQuery

/-- The handlers and sub-queries of the scope give what the vocabulary says, in every state. -/
structure Scope.Offers (scope : Scope) (V : Vocabulary) : Prop where
  free : ∀ name, V.handler name = none → scope.registry.find? name = none
  handler : ∀ name write field operand s, V.handler name = some write → write field operand s →
    ∃ h, scope.registry.find? name = some h ∧ ∀ context params,
      h field operand context params = (params ++ s.params, .ok (.str s.sql))
  subquery : ∀ ref s, V.subquery ref s → ∀ j, ∃ j', scope.embed ref j = .ok s j'

namespace Filter

open Compile Fragments

variable {scope : Scope} {V : Vocabulary} {field : Value}

abbrev YieldsClause (c : Compile Value) (fs : Fragments) : Prop := Yields c (.str fs.sql) fs.params

abbrev YieldsClauses (c : Compile (List Value)) (rows : List Fragments) : Prop :=
  Yields c (rows.map fun fs => .str fs.sql) (rows.flatMap params)

abbrev YieldsTexts (c : Compile (List String)) (rows : List Fragments) : Prop :=
  Yields c (rows.map sql) (rows.flatMap params)

theorem compared_yields (symbol : String) (v : Value) :
    YieldsClause (compared field symbol v) (comparison field symbol v) := by
  rw [YieldsClause, sql_comparison]
  exact (Yields.bindValue v).last (.pure _)

theorem membership_yields (hs : scope.Offers V) {ref : SubQueryRef} {s : Statement}
    (h : V.subquery ref s) (keyword : String) :
    YieldsClause (membership scope field ref keyword) (rowsOf field keyword s) := by
  rw [YieldsClause, sql_rowsOf, params_rowsOf]
  exact (Yields.ofWork (hs.subquery ref s h)).next ((Yields.bindAll s.params).last (.pure _))

theorem mixedItems_yields (hs : scope.Offers V) {vs : List Value} {rows : List Fragments}
    (h : SpellsItems V vs rows) : YieldsTexts (mixedItems scope vs) rows := by
  induction h with
  | nil => exact .pure []
  | @subquery ref s vs rows embedded _ ih =>
    have htext : sql [.whole s] = s.sql := by simp [Fragment.sql]
    have hparams : params [.whole s] = s.params := by simp [Fragment.params]
    rw [YieldsTexts, List.map_cons, List.flatMap_cons, htext, hparams, mixedItems]
    refine (Yields.ofWork (hs.subquery ref s embedded)).next ?_
    exact (Yields.bindAll s.params).bind (ih.last (.pure _))
  | @value v vs rows plain _ ih =>
    have htext : sql [.value v] = "?" := by simp [Fragment.sql]
    have hsub : ∀ ref, v = .subquery ref → False := by
      rintro ref rfl
      cases plain
    rw [YieldsTexts, List.map_cons, List.flatMap_cons, htext, mixedItems.eq_3 scope v vs hsub]
    exact (Yields.bindValue v).bind (ih.last (.pure _))

theorem containments_yields {vs : List Value} {texts : List String}
    (h : List.Forall₂ (fun v t => v.json = .ok t) vs texts) :
    YieldsTexts (containments field vs) (texts.map (containment field)) := by
  induction h with
  | nil => exact .pure []
  | @cons v t vs texts ht _ ih =>
    rw [YieldsTexts, List.map_cons, List.map_cons, List.flatMap_cons, sql_containment,
      params_containment, containments]
    refine (Yields.ofExcept ht).next ?_
    exact (Yields.bindValue (.str t)).bind (ih.last (.pure _))

theorem memberOf_yields (hs : scope.Offers V) {m : Membership} {vs : List Value} {fs : Fragments}
    (h : SpellsMembers V field m vs fs) (operator context : String) :
    YieldsClause (memberOf scope field operator m context vs) fs := by
  unfold memberOf
  cases h with
  | empty =>
    have htext : sql [.text m.ofEmpty] = m.ofEmpty := by simp [Fragment.sql]
    rw [YieldsClause, htext]
    exact (Yields.note _).next (.pure _)
  | @mixed _ _ rows some items =>
    have hne : vs.isEmpty = false := by cases vs <;> simp_all
    rw [if_neg (by simp [hne]), if_pos some, YieldsClause, sql_membersOf, params_membersOf]
    exact (mixedItems_yields hs items).last (.pure _)
  | @contained _ texts nonempty plain encoded =>
    have hne : vs.isEmpty = false := by simpa using nonempty
    rw [if_neg (by simp [hne]), if_neg (by simp [plain]), YieldsClause, sql_around, params_around,
      sql_joined, params_joined]
    exact (containments_yields encoded).last (.pure _)
  | listed nonempty plain keyword =>
    have hne : vs.isEmpty = false := by simpa using nonempty
    rw [if_neg (by simp [hne]), if_neg (by simp [plain]), YieldsClause, ← membersOf_placeholders,
      params_membersOf, flatMap_params_values]
    cases m with
    | containsAll => exact absurd rfl keyword
    | among => exact (Yields.bindAll vs).last (.pure _)
    | outside => exact (Yields.bindAll vs).last (.pure _)

theorem matchesPattern_yields (v : Value) :
    YieldsClause (matchesPattern field v) (patternMatch field v) := by
  rw [YieldsClause, sql_patternMatch]
  exact (Yields.bindValue _).last (.pure _)

theorem YieldsClause.negated {c : Compile Value} {fs : Fragments} (h : YieldsClause c fs) :
    YieldsClause (Filter.negated <$> c) (around "NOT (" fs ")") := by
  rw [YieldsClause, sql_around, params_around]
  exact h.map

theorem applySimple_yields (hs : scope.Offers V) {operator : Operator} {v : Value} {fs : Fragments}
    (h : SpellsSimple V field operator v fs) (name context : String) :
    YieldsClause (applySimple scope field name operator context v) fs := by
  cases h with
  | compare c => exact compared_yields c.symbol v
  | member items members =>
    simp only [applySimple, items]
    exact memberOf_yields hs members name context
  | present =>
    have htext : ∀ s, sql [.text s] = s := by simp [Fragment.sql]
    rw [YieldsClause, htext]
    exact .pure _
  | size =>
    have htext : sql [.text ("JSON_LENGTH(" ++ field.text ++ ") = "), .value v] =
        Dialect.jsonLength field.text := by
      simp [Dialect.jsonLength, Fragment.sql, String.append_assoc]
    rw [YieldsClause, htext]
    exact (Yields.bindValue v).last (.pure _)
  | @element _ t json =>
    rw [YieldsClause, sql_containment, params_containment]
    exact (Yields.ofExcept json).next ((Yields.bindValue (.str t)).last (.pure _))
  | regex => exact matchesPattern_yields v
  | like =>
    have htext : sql [.text (field.text ++ " LIKE "), .value v] = Dialect.likeMatch field.text := by
      simp [Dialect.likeMatch, Fragment.sql, String.append_assoc]
    rw [YieldsClause, htext]
    exact (Yields.bindValue v).last (.pure _)
  | negatedText s => exact (matchesPattern_yields (.str s)).negated
  | negatedPattern source => exact (matchesPattern_yields (.pattern source)).negated

theorem plugged_yields {handler : Handler} {operand : Value} {s : Statement}
    (h : ∀ context params, handler field operand context params =
      (params ++ s.params, .ok (.str s.sql))) (name context : String) :
    YieldsClause (plugged handler field name context operand) [.whole s] := by
  have htext : sql [.whole s] = s.sql := by simp [Fragment.sql]
  have hparams : params [.whole s] = s.params := by simp [Fragment.params]
  have hrun : Yields (handler.run field operand context) (.str s.sql) s.params := by
    intro d
    exact ⟨d.journal, by simp [Handler.run, h]⟩
  rw [YieldsClause, htext, hparams]
  exact hrun.last ((Yields.note _).next (.pure _))

theorem cons_clause_yields {first : Compile Value} {rest : Compile (List Value)} {fs : Fragments}
    {rows : List Fragments} (hfirst : YieldsClause first fs) (hrest : YieldsClauses rest rows) :
    YieldsClauses (do let clause ← first; return clause :: (← rest)) (fs :: rows) :=
  hfirst.bind (hrest.last (.pure _))

/-- Beside sub-queries and negated maps, an operand is left to the operator. -/
theorem applySimple_of_known {name : String} {operator : Operator} {operand : Value}
    {fs : Fragments} (hfind : scope.registry.find? name = none)
    (known : Operator.ofName? name = some operator) (single : operand.isSubquery = false)
    (simple : SpellsSimple V field operator operand fs) (context : String) :
    applyOperator scope field name context operand =
      applySimple scope field name operator context operand := by
  rw [applyOperator.eq_def, hfind]
  cases operand with
  | subquery ref => cases single
  | map es =>
    cases es with
    | nil => simp only [known]
    | cons e es =>
      cases operator with
      | negation => cases simple
      | _ => simp only [known]
  | _ => simp only [known]

mutual

theorem SpellsOperators.yields (hs : scope.Offers V) {es : Entries} {rows : List Fragments} :
    SpellsOperators V field es rows → ∀ context,
      YieldsClauses (operatorClauses scope field context es) rows
  | .nil, _ => .pure []
  | .plain unmarked rest, context => by
    have hrest := rest.yields hs context
    rw [operatorClauses.eq_def]
    simp only [unmarked]
    exact cons_clause_yields (compared_yields "=" _) hrest
  | .operator marked first rest, context => by
    have hfirst := first.yields hs context
    have hrest := rest.yields hs context
    rw [operatorClauses.eq_def]
    simp only [marked]
    exact cons_clause_yields hfirst hrest

theorem SpellsOperator.yields (hs : scope.Offers V) {name : String} {operand : Value}
    {fs : Fragments} : SpellsOperator V field name operand fs → ∀ context,
      YieldsClause (applyOperator scope field name context operand) fs
  | .plugged registered written, context => by
    obtain ⟨h, hfind, hcall⟩ := hs.handler _ _ _ _ _ registered written
    rw [applyOperator.eq_def, hfind]
    exact plugged_yields hcall name context
  | .subquery free embedded, context => by
    rw [applyOperator.eq_def, hs.free _ free]
    exact membership_yields hs embedded _
  | .negation free known operators, context => by
    have hoperators := operators.yields hs (step context "$not")
    rw [applyOperator.eq_def, hs.free _ free]
    simp only [known]
    rw [YieldsClause, sql_around, params_around, params_fieldConjunction]
    refine hoperators.last ?_
    rw [conjoined_rows]
    exact .pure _
  | .simple free known single simple, context => by
    rw [applySimple_of_known (hs.free _ free) known single simple context]
    exact applySimple_yields hs simple name context

end

theorem condition_yields (context : String) (rows : List Fragments) :
    Yields (condition context (rows.map fun fs => .str fs.sql)) (conjunction rows).sql [] := by
  have hnote : ∀ text, text = (conjunction rows).sql → Yields (do
      let d ← get
      Compile.note (.condition context text d.params)
      return text : Compile String) (conjunction rows).sql [] := by
    rintro text rfl
    exact .get_bind fun d => (Yields.note _).next (.pure _)
  unfold condition
  cases rows with
  | nil => exact hnote _ (by simp [conjunction, Fragment.sql])
  | cons fs rows =>
    have hjoin := Value.join_map_str " AND " ((fs :: rows).map sql)
    rw [List.map_map] at hjoin
    rw [show Value.join " AND " ((fs :: rows).map fun fs => .str fs.sql) = _ from hjoin]
    exact hnote _ (by simp [conjunction])

theorem SpellsChildren.checked {children : List Value} {rows : List Fragments}
    (operator context : String) (h : SpellsChildren V children rows) :
    Entry.checkChildren operator context children = .ok () := by
  induction children generalizing rows with
  | nil => rfl
  | cons child children ih =>
    cases h with
    | vacuous _ _ rest => exact ih rest
    | cons _ _ rest => exact ih rest

mutual

theorem Spells.yields (hs : scope.Offers V) (hV : TidyHandlers V) {tree : Value} {fs : Fragments} :
    Spells V tree fs → ∀ context, Yields (compile scope context tree) fs.sql fs.params
  | .null, context => by
    rw [compile.eq_1]
    exact condition_yields context []
  | .map entries, context => by
    have hentries := entries.yields hs hV context
    rw [compile.eq_2, params_conjunction]
    exact hentries.last (condition_yields context _)

theorem SpellsEntries.yields (hs : scope.Offers V) (hV : TidyHandlers V) {es : Entries}
    {rows : List Fragments} : SpellsEntries V es rows → ∀ context,
      YieldsClauses (entryClauses scope context es) rows
  | .nil, _ => by
    rw [entryClauses]
    exact .pure []
  | .silent first nothing rest, context => by
    have hfirst := first.yields hs hV context
    have hrest := rest.yields hs hV context
    rw [YieldsClause, params_eq_nil (first.tidy hV) (.inl nothing), nothing] at hfirst
    rw [entryClauses]
    exact hfirst.next (hrest.last (.pure _))
  | .cons first something rest, context => by
    have hfirst := first.yields hs hV context
    have hrest := rest.yields hs hV context
    rw [entryClauses]
    refine hfirst.bind (hrest.last ?_)
    rw [if_pos (by simpa [Value.truthy] using something)]
    exact .pure _

theorem SpellsEntry.yields (hs : scope.Offers V) (hV : TidyHandlers V) {key value : Value}
    {fs : Fragments} : SpellsEntry V key value fs → ∀ context,
      YieldsClause (entryClause scope context key value) fs
  | @SpellsEntry.group _ _ _ name c children rows marked known sequence filters, context => by
    have hfilters := filters.yields hs hV context
    have hcombine := combine_spelled c rows
    have hconnective : Entry.connective name context = .ok c := by
      simp [Entry.connective, known]
    have hgroup : YieldsClause (do
        Entry.checkChildren name context children
        return .str (c.combine (← childClauses scope context name 0 children)))
        (c.spelled rows) := by
      rw [YieldsClause, ← hcombine.1, ← hcombine.2]
      refine (Yields.ofExcept (filters.checked name context)).next ?_
      exact (hfilters name 0).last (.pure _)
    rw [entryClause.eq_def]
    simp only [marked]
    refine (Yields.ofExcept hconnective).next ?_
    cases value with
    | list items =>
      obtain rfl := Option.some.inj sequence
      exact hgroup
    | tuple items =>
      obtain rfl := Option.some.inj sequence
      exact hgroup
    | _ => cases sequence
  | .subquery unmarked embedded, context => by
    rw [entryClause.eq_def]
    simp only [unmarked]
    exact membership_yields hs embedded _
  | .operators unmarked operators, context => by
    rw [entryClause.eq_def, YieldsClause, params_fieldConjunction]
    simp only [unmarked]
    refine (operators.yields hs _).last ?_
    rw [conjoined_rows]
    exact .pure _
  | .literal unmarked single flat, context => by
    have hcompared : YieldsClause (compared key "=" value) (comparison key "=" value) :=
      compared_yields "=" value
    rw [entryClause.eq_def]
    simp only [unmarked]
    cases value with
    | subquery ref => cases single
    | map es => cases flat
    | _ => exact hcompared

theorem SpellsChildren.yields (hs : scope.Offers V) (hV : TidyHandlers V) {children : List Value}
    {rows : List Fragments} : SpellsChildren V children rows → ∀ context operator index,
      YieldsTexts (childClauses scope context operator index children) rows
  | .nil, _, _, _ => by
    rw [childClauses]
    exact .pure []
  | .vacuous first always rest, context, operator, index => by
    have hfirst := first.yields hs hV (childContext context operator index)
    have hrest := rest.yields hs hV context operator (index + 1)
    rw [params_eq_nil (first.tidy hV) always] at hfirst
    rw [childClauses]
    refine hfirst.next (hrest.last ?_)
    rw [if_pos always]
    exact .pure _
  | .cons first restricting rest, context, operator, index => by
    have hfirst := first.yields hs hV (childContext context operator index)
    have hrest := rest.yields hs hV context operator (index + 1)
    rw [childClauses]
    refine hfirst.bind (hrest.last ?_)
    rw [if_neg restricting]
    exact .pure _

end

end Filter

end BoundQuery
