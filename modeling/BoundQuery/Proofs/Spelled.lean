import BoundQuery.Proofs.Spelling
import BoundQuery.Proofs.Writing

/-! Compiling a filter writes it by the rules: the text that is returned and the values that are
bound are those of fragments that spell the filter. -/
namespace BoundQuery

/-- No characters but those of the condition that always holds. -/
def Text.Bare (s : String) : Prop := ∀ c ∈ s.toList, c = '1' ∨ c = '='

theorem Text.bare_append_iff {s t : String} : Bare (s ++ t) ↔ Bare s ∧ Bare t := by
  simp only [Bare, String.toList_append, List.mem_append, or_imp, forall_and]

theorem Text.bare_empty : Bare "" := by simp [Bare]

theorem Text.bare_alwaysTrue : Bare Dialect.alwaysTrue := by simp [Bare, Dialect.alwaysTrue]

/-- Fragments that may be left out: where all the text is bare, there are no values. -/
def Fragments.Tidy (fs : Fragments) : Prop := Text.Bare fs.sql → fs.params = []

namespace Fragments.Tidy

variable {fs gs : Fragments} {rows : List Fragments}

theorem of_not_bare (h : ¬Text.Bare fs.sql) : fs.Tidy := fun hb => absurd hb h

theorem append (hf : fs.Tidy) (hg : gs.Tidy) : Tidy (fs ++ gs) := by
  intro hb
  rw [sql_append, Text.bare_append_iff] at hb
  rw [params_append, hf hb.1, hg hb.2, List.nil_append]

theorem text (s : String) : Tidy [.text s] := fun _ => rfl

theorem value (v : Value) : Tidy [.value v] := by
  refine of_not_bare fun hb => ?_
  have h := hb '?' (by simp [Fragment.sql])
  exact absurd h (by decide)

theorem around (hf : fs.Tidy) (before after : String) : (Fragments.around before fs after).Tidy :=
  (text before).append (hf.append (text after))

theorem joined (h : ∀ fs ∈ rows, fs.Tidy) (separator : String) :
    (Fragments.joined separator rows).Tidy := by
  fun_induction Fragments.joined separator rows with
  | case1 => exact fun _ => rfl
  | case2 fs => exact h fs List.mem_cons_self
  | case3 fs next rest ih =>
    have hrest := ih fun gs hg => h gs (List.mem_cons_of_mem _ hg)
    exact (h fs List.mem_cons_self).append ((text separator).append hrest)

end Fragments.Tidy

/-- A handler that only appends values and returns a text, which is not bare if there are values. -/
def Handler.Appends (h : Handler) : Prop :=
  ∀ field operand context params params' clause,
    h field operand context params = (params', .ok clause) →
      ∃ s : Statement, clause = .str s.sql ∧ params' = params ++ s.params ∧
        Fragments.Tidy [.whole s]

def Scope.Appends (scope : Scope) : Prop :=
  ∀ name h, scope.registry.find? name = some h → h.Appends

def Registry.writes (r : Registry) (name : String) : Option (Value → Value → Statement → Prop) :=
  (r.find? name).map fun h field operand s =>
    ∃ context params, h field operand context params = (params ++ s.params, .ok (.str s.sql))

/-- What the handlers and sub-queries of the scope write is in the vocabulary. -/
structure Scope.Within (scope : Scope) (V : Vocabulary) : Prop where
  appends : scope.Appends
  handler : V.handler = scope.registry.writes
  subquery : ∀ ref j s j', scope.embed ref j = .ok s j' → V.subquery ref s

def Scope.vocabulary (scope : Scope) : Vocabulary where
  handler := scope.registry.writes
  subquery ref s := ∃ j j', scope.embed ref j = .ok s j'

theorem Scope.Appends.within {scope : Scope} (h : scope.Appends) : scope.Within scope.vocabulary :=
  ⟨h, rfl, fun _ j _ j' h => ⟨j, j', h⟩⟩

namespace Filter

open Compile Fragments

/-- A clause is the text of fragments, and its values are theirs. -/
def Clause (Q : Fragments → Prop) (clause : Value) (vs : List Value) : Prop :=
  ∃ fs : Fragments, Q fs ∧ clause = .str fs.sql ∧ vs = fs.params

def Clauses (Q : List Fragments → Prop) (clauses : List Value) (vs : List Value) : Prop :=
  ∃ rows : List Fragments, Q rows ∧ clauses = rows.map (fun fs => .str fs.sql) ∧
    vs = rows.flatMap params

def Texts (Q : List Fragments → Prop) (texts : List String) (vs : List Value) : Prop :=
  ∃ rows : List Fragments, Q rows ∧ texts = rows.map sql ∧ vs = rows.flatMap params

variable {scope : Scope} {field : Value} {V : Vocabulary}

theorem compared_spelled (symbol : String) (v : Value) :
    Writes (compared field symbol v) (Clause (· = comparison field symbol v)) := by
  refine (Writes.bindValue v).bind ?_
  rintro _ _ rfl
  exact .pure ⟨_, rfl, by simp, rfl⟩

theorem embed_writes (hs : scope.Within V) (ref : SubQueryRef) :
    Writes (liftM (scope.embed ref) : Compile Statement) fun s vs =>
      vs = [] ∧ V.subquery ref s :=
  .ofWork fun j s j' h => ⟨rfl, hs.subquery ref j s j' h⟩

theorem membership_spelled (hs : scope.Within V) (ref : SubQueryRef) (keyword : String) :
    Writes (membership scope field ref keyword)
      (Clause fun fs => ∃ s, V.subquery ref s ∧ fs = rowsOf field keyword s) := by
  refine (embed_writes hs ref).bind ?_
  rintro s _ ⟨rfl, h⟩
  refine (Writes.bindAll s.params).bind ?_
  rintro _ _ rfl
  exact .pure ⟨rowsOf field keyword s, ⟨s, h, rfl⟩, by simp, by simp⟩

theorem isSubquery_eq_false {v : Value} (h : ∀ ref, v = .subquery ref → False) :
    v.isSubquery = false := by
  cases v with
  | subquery ref => exact absurd rfl (h ref)
  | _ => rfl

theorem mixedItems_spelled (hs : scope.Within V) (values : List Value) :
    Writes (mixedItems scope values) (Texts (SpellsItems V values)) := by
  induction values with
  | nil => exact .pure ⟨[], .nil, rfl, rfl⟩
  | cons v values ih =>
    unfold mixedItems
    split
    · rename_i heq
      cases heq
    · rename_i ref rest heq
      obtain ⟨rfl, rfl⟩ := List.cons.inj heq
      refine (embed_writes hs ref).bind ?_
      rintro s _ ⟨rfl, h⟩
      refine (Writes.bindAll s.params).bind ?_
      rintro _ _ rfl
      refine ih.bind ?_
      rintro _ _ ⟨rows, hrows, rfl, rfl⟩
      exact .pure ⟨[.whole s] :: rows, .subquery h hrows, by simp [Fragment.sql],
        by simp [Fragment.params]⟩
    · rename_i w rest hplain heq
      obtain ⟨rfl, rfl⟩ := List.cons.inj heq
      refine (Writes.bindValue v).bind ?_
      rintro _ _ rfl
      refine ih.bind ?_
      rintro _ _ ⟨rows, hrows, rfl, rfl⟩
      exact .pure ⟨[.value v] :: rows, .value (isSubquery_eq_false hplain) hrows,
        by simp [Fragment.sql], by simp [Fragment.params]⟩

theorem containments_spelled (values : List Value) :
    Writes (containments field values) (Texts fun rows => ∃ texts,
      List.Forall₂ (fun v t => v.json = .ok t) values texts ∧
        rows = texts.map (containment field)) := by
  induction values with
  | nil => exact .pure ⟨[], ⟨[], .nil, rfl⟩, rfl, rfl⟩
  | cons v values ih =>
    have hjson : Writes (liftM v.json : Compile String) fun t vs => vs = [] ∧ v.json = .ok t :=
      .ofExcept fun t ht => ⟨rfl, ht⟩
    refine hjson.bind ?_
    rintro t _ ⟨rfl, ht⟩
    refine (Writes.bindValue (.str t)).bind ?_
    rintro _ _ rfl
    refine ih.bind ?_
    rintro _ _ ⟨rows, ⟨texts, htexts, rfl⟩, rfl, rfl⟩
    exact .pure ⟨(t :: texts).map (containment field), ⟨t :: texts, .cons ht htexts, rfl⟩,
      by simp, by simp⟩

theorem membersOf_placeholders (m : Membership) (vs : List Value) :
    listClause field m (Dialect.placeholders vs.length) =
      .str (membersOf field m (values vs)).sql := by
  rw [sql_membersOf, map_sql_values]
  rfl

theorem memberOf_spelled (hs : scope.Within V) (operator : String) (m : Membership)
    (context : String) (values : List Value) : Writes (memberOf scope field operator m context values)
      (Clause (SpellsMembers V field m values)) := by
  unfold memberOf
  split
  · rename_i hempty
    obtain rfl := List.isEmpty_iff.mp hempty
    refine (Writes.note _).bind ?_
    rintro _ _ rfl
    exact .pure ⟨_, .empty m, by simp [Fragment.sql], by simp [Fragment.params]⟩
  · rename_i hempty
    have hne : values ≠ [] := fun h => hempty (by simp [h])
    split
    · rename_i hsome
      refine (mixedItems_spelled hs values).bind ?_
      rintro _ _ ⟨rows, hrows, rfl, rfl⟩
      exact .pure ⟨membersOf field m rows, .mixed hsome hrows, by simp [listClause], by simp⟩
    · rename_i hsome
      have hplain : values.any Value.isSubquery = false := by simpa using hsome
      split
      · refine (containments_spelled values).bind ?_
        rintro _ _ ⟨rows, ⟨texts, htexts, rfl⟩, rfl, rfl⟩
        exact .pure ⟨_, .contained hne hplain htexts, by simp, by simp⟩
      · rename_i hkeyword
        refine (Writes.bindAll values).bind ?_
        rintro _ vs rfl
        exact .pure ⟨_, .listed hne hplain hkeyword, membersOf_placeholders m vs, by simp⟩

theorem matchesPattern_spelled (operand : Value) :
    Writes (matchesPattern field operand) (Clause (· = patternMatch field operand)) := by
  refine (Writes.bindValue _).bind ?_
  rintro _ _ rfl
  exact .pure ⟨_, rfl, by simp, rfl⟩

theorem negated_clause {Q Q' : Fragments → Prop} {clause : Value} {vs : List Value}
    (h : Clause Q clause vs) (hQ : ∀ fs, Q fs → Q' (around "NOT (" fs ")")) :
    Clause Q' (negated clause) vs := by
  obtain ⟨fs, hfs, rfl, rfl⟩ := h
  exact ⟨around "NOT (" fs ")", hQ fs hfs, by simp [negated], by simp⟩

theorem Clause.imp {Q Q' : Fragments → Prop} {clause : Value} {vs : List Value}
    (h : Clause Q clause vs) (hQ : ∀ fs, Q fs → Q' fs) : Clause Q' clause vs := by
  obtain ⟨fs, hfs, hclause⟩ := h
  exact ⟨fs, hQ fs hfs, hclause⟩

theorem applySimple_spelled (hs : scope.Within V) (name : String) (operator : Operator)
    (context : String) (operand : Value) : Writes (applySimple scope field name operator context operand)
      (Clause (SpellsSimple V field operator operand)) := by
  unfold applySimple
  cases operator with
  | compare c =>
    refine (compared_spelled c.symbol operand).imp fun _ _ h => h.imp ?_
    rintro _ rfl
    exact .compare c operand
  | member m =>
    dsimp only
    split
    · rename_i values hvalues
      refine (memberOf_spelled hs name m context values).imp fun _ _ h => h.imp fun _ => ?_
      exact .member hvalues
    · exact .throw
  | present => exact .pure ⟨_, .present operand, by simp [Fragment.sql], rfl⟩
  | size =>
    refine (Writes.bindValue operand).bind ?_
    rintro _ _ rfl
    refine .pure ⟨_, .size operand, ?_, rfl⟩
    simp [Dialect.jsonLength, Fragment.sql, String.append_assoc]
  | element =>
    have hjson : Writes (liftM operand.json : Compile String) fun t vs =>
        vs = [] ∧ operand.json = .ok t := .ofExcept fun t ht => ⟨rfl, ht⟩
    refine hjson.bind ?_
    rintro t _ ⟨rfl, ht⟩
    refine (Writes.bindValue (.str t)).bind ?_
    rintro _ _ rfl
    exact .pure ⟨_, .element ht, by simp, by simp⟩
  | regex =>
    refine (matchesPattern_spelled operand).imp fun _ _ h => h.imp ?_
    rintro _ rfl
    exact .regex operand
  | like =>
    refine (Writes.bindValue operand).bind ?_
    rintro _ _ rfl
    refine .pure ⟨_, .like operand, ?_, rfl⟩
    simp [Dialect.likeMatch, Fragment.sql, String.append_assoc]
  | negation =>
    dsimp only
    split
    · rename_i s
      refine (matchesPattern_spelled _).map fun _ _ h => negated_clause h ?_
      rintro _ rfl
      exact .negatedText s
    · rename_i source
      refine (matchesPattern_spelled _).map fun _ _ h => negated_clause h ?_
      rintro _ rfl
      exact .negatedPattern source
    · exact .throw

theorem plugged_spelled {handler : Handler} (hh : handler.Appends) (name context : String)
    (operand : Value) : Writes (plugged handler field name context operand)
      (Clause fun fs => ∃ s : Statement, (∃ context params, handler field operand context params =
        (params ++ s.params, .ok (.str s.sql))) ∧ fs = [.whole s]) := by
  have hrun : Writes (handler.run field operand context)
      (Clause fun fs => ∃ s : Statement, (∃ context params, handler field operand context params =
        (params ++ s.params, .ok (.str s.sql))) ∧ fs = [.whole s]) := by
    intro d clause d' hd
    unfold Handler.run at hd
    split at hd
    · rename_i params' clause' hcall
      obtain ⟨rfl, rfl⟩ := hd
      obtain ⟨s, rfl, rfl, -⟩ := hh field operand context d.params _ _ hcall
      exact ⟨s.params, rfl, [.whole s], ⟨s, ⟨context, d.params, hcall⟩, rfl⟩,
        by simp [Fragment.sql], by simp [Fragment.params]⟩
    · cases hd
  refine hrun.bind fun clause vs h => ?_
  refine (Writes.note _).bind ?_
  rintro _ _ rfl
  exact .pure (by simpa using h)

theorem conjoined_rows (rows : List Fragments) :
    conjoined (rows.map fun fs => .str fs.sql) = .ok (.str (fieldConjunction rows).sql) := by
  match rows with
  | [] => rfl
  | [fs] => rfl
  | fs :: gs :: rows =>
    have hjoin := Value.join_map_str " AND " ((fs :: gs :: rows).map sql)
    rw [List.map_map] at hjoin
    simp only [List.map_cons, conjoined, fieldConjunction, sql_around, sql_joined]
    rw [show Value.join " AND " (.str fs.sql :: .str gs.sql :: rows.map fun fs => .str fs.sql) = _
      from hjoin]
    rfl

theorem condition_spelled (context : String) {Q : List Fragments → Prop} {clauses vs : List Value}
    (h : Clauses Q clauses vs) : Writes (condition context clauses) fun s ws =>
      ∃ rows, Q rows ∧ s = (conjunction rows).sql ∧ vs ++ ws = (conjunction rows).params := by
  obtain ⟨rows, hrows, rfl, rfl⟩ := h
  have hnote : ∀ text, text = (conjunction rows).sql → Writes (do
      let d ← get
      Compile.note (.condition context text d.params)
      return text : Compile String) fun s ws => ∃ rows', Q rows' ∧ s = (conjunction rows').sql ∧
        rows.flatMap params ++ ws = (conjunction rows').params := by
    intro text htext
    refine Writes.get.bind ?_
    rintro d _ rfl
    refine (Writes.note _).bind ?_
    rintro _ _ rfl
    exact .pure ⟨rows, hrows, htext, by simp⟩
  unfold condition
  cases rows with
  | nil => exact hnote _ (by simp [conjunction, Fragment.sql])
  | cons fs rows =>
    have hjoin := Value.join_map_str " AND " ((fs :: rows).map sql)
    rw [List.map_map] at hjoin
    rw [show Value.join " AND " ((fs :: rows).map fun fs => .str fs.sql) = _ from hjoin]
    exact hnote _ (by simp [conjunction])

theorem parts_spelled (separator : String) (rows : List Fragments) :
    (joined separator (rows.map fun fs => around "(" fs ")")).sql =
        separator.intercalate ((rows.map sql).map Connective.parenthesized) ∧
      (joined separator (rows.map fun fs => around "(" fs ")")).params = rows.flatMap params := by
  constructor
  · rw [sql_joined, List.map_map, List.map_map]
    congr 2
    funext fs
    simp [Connective.parenthesized]
  · simp [List.flatMap_map]

theorem combine_spelled (c : Connective) (rows : List Fragments) :
    c.combine (rows.map sql) = (c.spelled rows).sql ∧
      rows.flatMap params = (c.spelled rows).params := by
  cases rows with
  | nil => cases c <;> simp [Connective.combine, Connective.spelled, Fragment.sql, Fragment.params]
  | cons fs rows =>
    have hand := parts_spelled " AND " (fs :: rows)
    have hor := parts_spelled " OR " (fs :: rows)
    cases c with
    | all => exact ⟨hand.1.symm, hand.2.symm⟩
    | any =>
      simp only [Connective.spelled, sql_around, params_around, hor]
      exact ⟨rfl, trivial⟩
    | none =>
      simp only [Connective.spelled, sql_around, params_around, hor]
      exact ⟨rfl, trivial⟩

theorem Clauses.cons {Q : Fragments → Prop} {Qs Qs' : List Fragments → Prop} {clause : Value}
    {clauses vs ws : List Value} (h : Clause Q clause vs) (hs : Clauses Qs clauses ws)
    (hQ : ∀ fs rows, Q fs → Qs rows → Qs' (fs :: rows)) :
    Clauses Qs' (clause :: clauses) (vs ++ ws) := by
  obtain ⟨fs, hfs, rfl, rfl⟩ := h
  obtain ⟨rows, hrows, rfl, rfl⟩ := hs
  exact ⟨fs :: rows, hQ fs rows hfs hrows, rfl, rfl⟩

theorem cons_clause_spelled {Q : Fragments → Prop} {Qs Qs' : List Fragments → Prop}
    {first : Compile Value} {rest : Compile (List Value)} (hfirst : Writes first (Clause Q))
    (hrest : Writes rest (Clauses Qs)) (hQ : ∀ fs rows, Q fs → Qs rows → Qs' (fs :: rows)) :
    Writes (do let clause ← first; return clause :: (← rest)) (Clauses Qs') := by
  refine hfirst.bind fun clause vs h => hrest.bind fun clauses ws hs => .pure ?_
  simpa using Clauses.cons h hs hQ

theorem handler_eq_none (hs : scope.Within V) {name : String}
    (h : scope.registry.find? name = none) : V.handler name = none := by
  simp [hs.handler, Registry.writes, h]

/-- One case for each way in which an operator can be applied, and for a key without a mark. -/
theorem operators_spelled (hs : scope.Within V) :
    (∀ context entries, Writes (operatorClauses scope field context entries)
      (Clauses (SpellsOperators V field entries))) ∧
    ∀ name context operand, Writes (applyOperator scope field name context operand)
      (Clause (SpellsOperator V field name operand)) := by
  apply operatorClauses.mutual_induct scope field
  case case1 => -- a handler
    intro operand name context handler hfind
    rw [applyOperator.eq_def, hfind]
    refine (plugged_spelled (hs.appends name handler hfind) name context operand).imp fun _ _ h => h.imp ?_
    rintro _ ⟨s, hwritten, rfl⟩
    have hregistered : V.handler name = some fun field operand s =>
        ∃ context params, handler field operand context params =
          (params ++ s.params, .ok (.str s.sql)) := by
      simp [hs.handler, Registry.writes, hfind]
    exact .plugged hregistered hwritten
  case case2 => -- a sub-query
    intro name context hfind ref
    rw [applyOperator.eq_def, hfind]
    refine (membership_spelled hs ref _).imp fun _ _ h => h.imp ?_
    rintro _ ⟨s, hembedded, rfl⟩
    exact .subquery (handler_eq_none hs hfind) hembedded
  case case3 => -- operators under an unknown name
    intro name context hfind entry entries hname
    rw [applyOperator.eq_def, hfind]
    simp only [hname]
    exact .throw
  case case4 => -- operators that are negated
    intro name context hfind entry entries hname ih
    rw [applyOperator.eq_def, hfind]
    simp only [hname]
    refine ih.bind ?_
    rintro _ _ ⟨rows, hrows, rfl, rfl⟩
    rw [conjoined_rows]
    exact .pure ⟨_, .negation (handler_eq_none hs hfind) hname hrows, by simp [negated], by simp⟩
  case case5 => -- a map under any other operator
    intro name context hfind entry entries operator hop hname
    rw [applyOperator.eq_def, hfind]
    simp only [hname]
    refine (applySimple_spelled hs name operator context _).imp fun _ _ h => h.imp fun fs hfs => ?_
    exact .simple (handler_eq_none hs hfind) hname rfl hfs
  case case6 => -- any other operand, under an unknown name
    intro name context hfind operand hsub hmap hname
    rw [applyOperator.eq_def, hfind]
    simp only [hname]
    exact .throw
  case case7 => -- any other operand
    intro name context hfind operand hsub hmap operator hname
    rw [applyOperator.eq_def, hfind]
    simp only [hname]
    refine (applySimple_spelled hs name operator context _).imp fun _ _ h => h.imp fun fs hfs => ?_
    exact .simple (handler_eq_none hs hfind) hname (isSubquery_eq_false hsub) hfs
  case case8 => -- the end of the operators
    intro context
    exact .pure ⟨[], .nil, rfl, rfl⟩
  case case9 => -- an operator before others
    intro context key operand rest operator hkey hrest hfirst
    rw [operatorClauses.eq_def]
    simp only [hkey]
    exact cons_clause_spelled hfirst hrest fun fs rows hfs hrows => .operator hkey hfs hrows
  case case10 => -- a key without a mark before others
    intro context key operand rest hkey hrest
    rw [operatorClauses.eq_def]
    simp only [hkey]
    refine cons_clause_spelled (compared_spelled "=" operand) hrest ?_
    rintro _ rows rfl hrows
    exact .plain hkey hrows

/-- Where the handlers write tidy clauses, all that is written is tidy. -/
def TidyHandlers (V : Vocabulary) : Prop :=
  ∀ name write field operand s, V.handler name = some write → write field operand s →
    Fragments.Tidy [.whole s]

theorem tidy_of_blank {fs : Fragments} (h : ' ' ∈ fs.sql.toList) : fs.Tidy :=
  .of_not_bare fun hb => absurd (hb ' ' h) (by decide)

theorem comparison_tidy (symbol : String) (v : Value) : (comparison field symbol v).Tidy :=
  (Tidy.text _).append (.value v)

theorem containment_tidy (json : String) : (containment field json).Tidy :=
  (Tidy.value _).around _ _

theorem rowsOf_tidy (keyword : String) (s : Statement) : (rowsOf field keyword s).Tidy :=
  tidy_of_blank (by simp)

theorem membersOf_tidy (m : Membership) (items : List Fragments) : (membersOf field m items).Tidy :=
  tidy_of_blank (by simp)

theorem SpellsMembers.tidy {m : Membership} {vs : List Value} {fs : Fragments}
    (h : SpellsMembers V field m vs fs) : fs.Tidy := by
  cases h with
  | empty => exact .text _
  | mixed => exact membersOf_tidy m _
  | contained =>
    refine (Tidy.joined (fun fs hfs => ?_) " AND ").around _ _
    obtain ⟨t, -, rfl⟩ := List.mem_map.mp hfs
    exact containment_tidy t
  | listed => exact membersOf_tidy m _

theorem SpellsSimple.tidy {operator : Operator} {v : Value} {fs : Fragments}
    (h : SpellsSimple V field operator v fs) : fs.Tidy := by
  cases h with
  | compare => exact comparison_tidy _ v
  | member _ members => exact members.tidy
  | present => exact .text _
  | size => exact (Tidy.text _).append (.value v)
  | element => exact containment_tidy _
  | regex => exact (Tidy.text _).append (.value _)
  | like => exact (Tidy.text _).append (.value v)
  | negatedText => exact ((Tidy.text _).append (.value _)).around _ _
  | negatedPattern => exact ((Tidy.text _).append (.value _)).around _ _

theorem fieldConjunction_tidy {rows : List Fragments} (h : ∀ fs ∈ rows, fs.Tidy) :
    (fieldConjunction rows).Tidy := by
  match rows with
  | [] => exact fun _ => rfl
  | [fs] => exact h fs List.mem_cons_self
  | fs :: gs :: rows => exact (Tidy.joined h " AND ").around _ _

theorem conjunction_tidy {rows : List Fragments} (h : ∀ fs ∈ rows, fs.Tidy) :
    (conjunction rows).Tidy := by
  cases rows with
  | nil => exact .text _
  | cons fs rows => exact Tidy.joined h " AND "

theorem spelled_tidy (c : Connective) {rows : List Fragments} (h : ∀ fs ∈ rows, fs.Tidy) :
    (c.spelled rows).Tidy := by
  have hparts : ∀ fs ∈ rows.map fun fs => around "(" fs ")", fs.Tidy := by
    intro fs hfs
    obtain ⟨gs, hgs, rfl⟩ := List.mem_map.mp hfs
    exact (h gs hgs).around _ _
  cases rows with
  | nil => cases c <;> exact .text _
  | cons fs rows =>
    cases c with
    | all => exact Tidy.joined hparts " AND "
    | any => exact (Tidy.joined hparts " OR ").around _ _
    | none => exact (Tidy.joined hparts " OR ").around _ _

mutual

theorem SpellsOperators.tidy (hV : TidyHandlers V) {es : Entries} {rows : List Fragments} :
    SpellsOperators V field es rows → ∀ fs ∈ rows, fs.Tidy
  | .nil => by simp
  | .plain _ rest => by
    have hrest := rest.tidy hV
    exact List.forall_mem_cons.mpr ⟨comparison_tidy _ _, hrest⟩
  | .operator _ first rest => by
    have hfirst := first.tidy hV
    have hrest := rest.tidy hV
    exact List.forall_mem_cons.mpr ⟨hfirst, hrest⟩

theorem SpellsOperator.tidy (hV : TidyHandlers V) {name : String} {operand : Value}
    {fs : Fragments} : SpellsOperator V field name operand fs → fs.Tidy
  | .plugged registered written => hV _ _ _ _ _ registered written
  | .subquery _ _ => rowsOf_tidy _ _
  | .negation _ _ operators => by
    have hrows := operators.tidy hV
    exact (fieldConjunction_tidy hrows).around _ _
  | .simple _ _ _ simple => simple.tidy

end

mutual

theorem Spells.tidy (hV : TidyHandlers V) {tree : Value} {fs : Fragments} :
    Spells V tree fs → fs.Tidy
  | .null => .text _
  | .map entries => by
    have hrows := entries.tidy hV
    exact conjunction_tidy hrows

theorem SpellsEntries.tidy (hV : TidyHandlers V) {es : Entries} {rows : List Fragments} :
    SpellsEntries V es rows → ∀ fs ∈ rows, fs.Tidy
  | .nil => by simp
  | .silent _ _ rest => rest.tidy hV
  | .cons first _ rest => by
    have hfirst := first.tidy hV
    have hrest := rest.tidy hV
    exact List.forall_mem_cons.mpr ⟨hfirst, hrest⟩

theorem SpellsEntry.tidy (hV : TidyHandlers V) {key value : Value} {fs : Fragments} :
    SpellsEntry V key value fs → fs.Tidy
  | .group _ _ _ filters => by
    have hrows := filters.tidy hV
    exact spelled_tidy _ hrows
  | .subquery _ _ => rowsOf_tidy _ _
  | .operators _ operators => fieldConjunction_tidy (operators.tidy hV)
  | .literal _ _ _ => comparison_tidy _ _

theorem SpellsChildren.tidy (hV : TidyHandlers V) {children : List Value} {rows : List Fragments} :
    SpellsChildren V children rows → ∀ fs ∈ rows, fs.Tidy
  | .nil => by simp
  | .vacuous _ _ rest => rest.tidy hV
  | .cons first _ rest => by
    have hfirst := first.tidy hV
    have hrest := rest.tidy hV
    exact List.forall_mem_cons.mpr ⟨hfirst, hrest⟩

end

/-- What is left out has no values. -/
theorem params_eq_nil {fs : Fragments} (h : fs.Tidy)
    (hs : fs.sql = "" ∨ fs.sql = Dialect.alwaysTrue) : fs.params = [] := by
  refine h ?_
  rcases hs with hs | hs
  · exact hs ▸ Text.bare_empty
  · exact hs ▸ Text.bare_alwaysTrue

theorem tidyHandlers_of_within (hs : scope.Within V) : TidyHandlers V := by
  intro name write field operand s hwrite hs'
  rw [hs.handler] at hwrite
  obtain ⟨h, hfind, rfl⟩ := Option.map_eq_some_iff.mp hwrite
  obtain ⟨context, params, hcall⟩ := hs'
  obtain ⟨t, ht, hparams, htidy⟩ := hs.appends name h hfind field operand context params _ _ hcall
  obtain ⟨sql, values⟩ := s
  obtain ⟨tsql, tvalues⟩ := t
  obtain rfl : sql = tsql := Value.str.inj ht
  obtain rfl : values = tvalues := List.append_cancel_left hparams
  exact htidy

theorem checkChildren_eq_ok {operator context : String} {children : List Value} {u : Unit}
    (h : Entry.checkChildren operator context children = .ok u) :
    ∀ child ∈ children, ∃ es, child = .map es := by
  induction children with
  | nil => simp
  | cons child children ih =>
    cases child with
    | map es =>
      intro v hv
      rcases List.mem_cons.mp hv with rfl | hv
      · exact ⟨es, rfl⟩
      · exact ih h v hv
    | _ => cases h

theorem connective_eq_ok {operator context : String} {c : Connective}
    (h : Entry.connective operator context = .ok c) : Connective.ofName? operator = some c := by
  unfold Entry.connective at h
  split at h
  · rename_i hname
    rw [hname, Except.ok.inj h]
  · cases h

/-- A group is written by its connective, once its filters are. -/
theorem group_spelled {key value : Value} {operator context : String} {c : Connective}
    {children : List Value} (hkey : key.operator? = some operator)
    (hc : Connective.ofName? operator = some c) (hvalue : value.sequence? = some children)
    (ih : (∀ child ∈ children, ∃ es, child = .map es) →
      Writes (childClauses scope context operator 0 children) (Texts (SpellsChildren V children))) :
    Writes (do
      Entry.checkChildren operator context children
      return .str (c.combine (← childClauses scope context operator 0 children)) :
        Compile Value) (Clause (SpellsEntry V key value)) := by
  have hmaps : Writes (liftM (Entry.checkChildren operator context children) : Compile Unit)
      fun _ vs => vs = [] ∧ ∀ child ∈ children, ∃ es, child = .map es :=
    .ofExcept fun _ hcheck => ⟨rfl, checkChildren_eq_ok hcheck⟩
  refine hmaps.bind ?_
  rintro _ _ ⟨rfl, hmaps⟩
  refine (ih hmaps).bind ?_
  rintro _ _ ⟨rows, hrows, rfl, rfl⟩
  have hcombine := combine_spelled c rows
  exact .pure ⟨c.spelled rows, .group hkey hc hvalue hrows, by rw [hcombine.1],
    by simpa using hcombine.2⟩

/-- A filter of a group that always holds is left out, and has bound nothing. -/
theorem child_spelled (hs : scope.Within V) {context operator : String} {index : Nat} {es : Entries}
    {rest : List Value}
    (hchild : Writes (compile scope (childContext context operator index) (.map es)) fun s vs =>
      ∃ fs, Spells V (.map es) fs ∧ s = fs.sql ∧ vs = fs.params)
    (hrest : Writes (childClauses scope context operator (index + 1) rest)
      (Texts (SpellsChildren V rest))) :
    Writes (childClauses scope context operator index (.map es :: rest))
      (Texts (SpellsChildren V (.map es :: rest))) := by
  rw [childClauses]
  refine hchild.bind ?_
  rintro _ _ ⟨fs, hfs, rfl, rfl⟩
  refine hrest.bind ?_
  rintro _ _ ⟨rows, hrows, rfl, rfl⟩
  refine .pure ?_
  split
  · rename_i halways
    have hnone := params_eq_nil (hfs.tidy (tidyHandlers_of_within hs)) halways
    exact ⟨rows, .vacuous hfs halways hrows, rfl, by simp [hnone]⟩
  · rename_i hrestricting
    exact ⟨fs :: rows, .cons hfs hrestricting hrows, rfl, by simp⟩

/-- An entry without a clause is left out, and has bound nothing. -/
theorem entry_spelled (hs : scope.Within V) {context : String} {key value : Value} {rest : Entries}
    (hentry : Writes (entryClause scope context key value) (Clause (SpellsEntry V key value)))
    (hrest : Writes (entryClauses scope context rest) (Clauses (SpellsEntries V rest))) :
    Writes (entryClauses scope context ((key, value) :: rest))
      (Clauses (SpellsEntries V ((key, value) :: rest))) := by
  rw [entryClauses]
  refine hentry.bind ?_
  rintro _ _ ⟨fs, hfs, rfl, rfl⟩
  refine hrest.bind ?_
  rintro _ _ ⟨rows, hrows, rfl, rfl⟩
  refine .pure ?_
  split
  · rename_i htruthy
    have hne : fs.sql ≠ "" := by simpa [Value.truthy] using htruthy
    exact ⟨fs :: rows, .cons hfs hne hrows, rfl, by simp⟩
  · rename_i hfalsy
    have hempty : fs.sql = "" := by simpa [Value.truthy] using hfalsy
    have hnone := params_eq_nil (hfs.tidy (tidyHandlers_of_within hs)) (.inl hempty)
    exact ⟨rows, .silent hfs hempty hrows, rfl, by simp [hnone]⟩

/-- One case for each shape of a filter and of an entry, and for the ends of the lists. -/
theorem compile_spelled (hs : scope.Within V) :
    (∀ context tree, Writes (compile scope context tree) fun s vs =>
      ∃ fs, Spells V tree fs ∧ s = fs.sql ∧ vs = fs.params) ∧
    (∀ context entries, Writes (entryClauses scope context entries)
      (Clauses (SpellsEntries V entries))) ∧
    (∀ context key value, Writes (entryClause scope context key value)
      (Clause (SpellsEntry V key value))) ∧
    ∀ context operator index children, (∀ child ∈ children, ∃ es, child = .map es) →
      Writes (childClauses scope context operator index children)
        (Texts (SpellsChildren V children)) := by
  apply compile.mutual_induct
  case case1 => -- no filter
    intro context
    have hnone : Clauses (· = []) [] [] := ⟨[], rfl, rfl, rfl⟩
    refine (condition_spelled context hnone).imp ?_
    rintro _ _ ⟨_, rfl, rfl, hvs⟩
    exact ⟨_, .null, rfl, hvs⟩
  case case2 => -- a map
    intro context entries ih
    rw [compile]
    refine ih.bind fun clauses vs h => (condition_spelled context h).imp ?_
    rintro _ ws ⟨rows, hrows, rfl, hvs⟩
    exact ⟨_, .map hrows, rfl, hvs⟩
  case case3 => -- what is no filter
    intro context v hnull hmap
    rw [compile.eq_3 scope context v hnull hmap]
    exact .throw
  case case4 => -- an entry with a marked key
    intro value context key operator hkey ih
    rw [entryClause.eq_def]
    simp only [hkey]
    have hconnective : Writes (liftM (Entry.connective operator context) : Compile Connective)
        fun c vs => vs = [] ∧ Connective.ofName? operator = some c :=
      .ofExcept fun c hc => ⟨rfl, connective_eq_ok hc⟩
    refine hconnective.bind ?_
    rintro c _ ⟨rfl, hc⟩
    cases value with
    | list children => exact group_spelled hkey hc rfl ih
    | tuple children => exact group_spelled hkey hc rfl ih
    | _ => exact .throw
  case case5 => -- a field with a sub-query
    intro context key hkey ref
    rw [entryClause.eq_def]
    simp only [hkey]
    refine (membership_spelled hs ref "IN").imp fun _ _ h => h.imp ?_
    rintro _ ⟨s, hembedded, rfl⟩
    exact .subquery hkey hembedded
  case case6 => -- a field with operators
    intro context key hkey entries
    rw [entryClause.eq_def]
    simp only [hkey]
    refine ((operators_spelled hs).1 _ entries).bind ?_
    rintro _ _ ⟨rows, hrows, rfl, rfl⟩
    rw [conjoined_rows]
    exact .pure ⟨_, .operators hkey hrows, rfl, by simp⟩
  case case7 => -- a field with any other value
    intro context key hkey v hsub hmap
    rw [entryClause.eq_def]
    simp only [hkey]
    have hflat : v.entries? = none := by
      cases v with
      | map es => exact absurd rfl (hmap es)
      | _ => rfl
    refine (compared_spelled "=" v).imp fun _ _ h => h.imp ?_
    rintro _ rfl
    exact .literal hkey (isSubquery_eq_false hsub) hflat
  case case8 => -- the end of a group
    intro context operator index _
    exact .pure ⟨[], .nil, rfl, rfl⟩
  case case9 => -- a filter of a group
    intro context operator index child rest hchild hrest hmaps
    obtain ⟨es, rfl⟩ := hmaps child List.mem_cons_self
    exact child_spelled hs hchild (hrest fun v hv => hmaps v (List.mem_cons_of_mem _ hv))
  case case10 => -- the end of a map
    intro context
    exact .pure ⟨[], .nil, rfl, rfl⟩
  case case11 => -- an entry of a map
    intro context key value rest hentry hrest
    exact entry_spelled hs hentry hrest

end Filter

end BoundQuery
