import BoundQuery.Proofs.Applied
import BoundQuery.Proofs.Steady
import BoundQuery.Proofs.Vacuity

/-! Filters that differ only in the values they bind are compiled to the same text, with as many
values. -/
namespace BoundQuery

inductive Fragment.Alike : Fragment → Fragment → Prop
  | text (s : String) : Alike (.text s) (.text s)
  | value (v w : Value) : Alike (.value v) (.value w)
  | whole (s : Statement) : Alike (.whole s) (.whole s)

abbrev Fragments.Alike : Fragments → Fragments → Prop := List.Forall₂ Fragment.Alike

namespace Fragments

variable {fs gs : Fragments} {rows rows' : List Fragments}

theorem Alike.sql_eq (h : Alike fs gs) : fs.sql = gs.sql := by
  induction h with
  | nil => rfl
  | cons hf _ ih => cases hf <;> simp [ih, Fragment.sql]

theorem Alike.params_length (h : Alike fs gs) : fs.params.length = gs.params.length := by
  induction h with
  | nil => rfl
  | cons hf _ ih => cases hf <;> simp [ih, Fragment.params]

theorem Alike.append {fs' gs' : Fragments} (h : Alike fs gs) (h' : Alike fs' gs') :
    Alike (fs ++ fs') (gs ++ gs') := List.rel_append h h'

theorem Alike.around (h : Alike fs gs) (before after : String) :
    Alike (Fragments.around before fs after) (Fragments.around before gs after) :=
  .cons (.text before) (h.append (.cons (.text after) .nil))

theorem alike_joined (h : List.Forall₂ Alike rows rows') (separator : String) :
    Alike (joined separator rows) (joined separator rows') := by
  induction h with
  | nil => exact .nil
  | cons hfirst hrest ih =>
    cases hrest with
    | nil => exact hfirst
    | cons => exact hfirst.append (.cons (.text separator) ih)

end Fragments

/-- An operator that binds whatever it is given, be it in another form. -/
def Operator.bindsOperand : Operator → Bool
  | compare _ => true
  | size => true
  | element => true
  | regex => true
  | like => true
  | _ => false

def Value.isPattern : Value → Bool
  | str _ => true
  | pattern _ => true
  | _ => false

namespace Filter

/-- Items of a list: the same, or values that are both bound. -/
def AlikeItem (v w : Value) : Prop := v = w ∨ v.isSubquery = false ∧ w.isSubquery = false

mutual

/-- Operators of a field that differ only in the values they bind. -/
inductive AlikeOperators : Entries → Entries → Prop
  | nil : AlikeOperators [] []
  | plain {key : Value} {es es' : Entries} (unmarked : key.operator? = none) (v w : Value)
      (rest : AlikeOperators es es') : AlikeOperators ((key, v) :: es) ((key, w) :: es')
  | subquery {key : Value} {es es' : Entries} (ref : SubQueryRef) (rest : AlikeOperators es es') :
      AlikeOperators ((key, .subquery ref) :: es) ((key, .subquery ref) :: es')
  | operator {key v w : Value} {name : String} {operator : Operator} {es es' : Entries}
      (marked : key.operator? = some name) (known : Operator.ofName? name = some operator)
      (single : v.isSubquery = false) (single' : w.isSubquery = false)
      (operand : AlikeOperand operator v w) (rest : AlikeOperators es es') :
      AlikeOperators ((key, v) :: es) ((key, w) :: es')

inductive AlikeOperand : Operator → Value → Value → Prop
  | bound {operator : Operator} (binds : operator.bindsOperand = true) (v w : Value) :
      AlikeOperand operator v w
  | members {m : Membership} {v w : Value} {vs ws : List Value} (items : v.sequence? = some vs)
      (items' : w.sequence? = some ws) (alike : List.Forall₂ AlikeItem vs ws) :
      AlikeOperand (.member m) v w
  | present {v w : Value} (truthy : v.truthy = w.truthy) : AlikeOperand .present v w
  | pattern {v w : Value} (text : v.isPattern = true) (text' : w.isPattern = true) :
      AlikeOperand .negation v w
  | negation {es es' : Entries} (operators : AlikeOperators es es') :
      AlikeOperand .negation (.map es) (.map es')

end

mutual

/-- Filters that differ only in the values they bind. -/
inductive Alike : Value → Value → Prop
  | null : Alike .null .null
  | map {es es' : Entries} (entries : AlikeEntries es es') : Alike (.map es) (.map es')

inductive AlikeEntries : Entries → Entries → Prop
  | nil : AlikeEntries [] []
  | cons {key v w : Value} {es es' : Entries} (first : AlikeEntry key v w)
      (rest : AlikeEntries es es') : AlikeEntries ((key, v) :: es) ((key, w) :: es')

inductive AlikeEntry : Value → Value → Value → Prop
  | group {key v w : Value} {name : String} {children children' : List Value}
      (marked : key.operator? = some name) (sequence : v.sequence? = some children)
      (sequence' : w.sequence? = some children') (filters : AlikeChildren children children') :
      AlikeEntry key v w
  | subquery (key : Value) (ref : SubQueryRef) : AlikeEntry key (.subquery ref) (.subquery ref)
  | operators {key : Value} {es es' : Entries} (unmarked : key.operator? = none)
      (operators : AlikeOperators es es') : AlikeEntry key (.map es) (.map es')
  | literal {key v w : Value} (unmarked : key.operator? = none)
      (single : v.isSubquery = false) (flat : v.entries? = none)
      (single' : w.isSubquery = false) (flat' : w.entries? = none) : AlikeEntry key v w

inductive AlikeChildren : List Value → List Value → Prop
  | nil : AlikeChildren [] []
  | cons {child child' : Value} {children children' : List Value} (first : Alike child child')
      (rest : AlikeChildren children children') :
      AlikeChildren (child :: children) (child' :: children')

end

end Filter

def Vocabulary.Functional (V : Vocabulary) : Prop :=
  ∀ ref s s', V.subquery ref s → V.subquery ref s' → s = s'

theorem Scope.Steady.functional {scope : Scope} (h : scope.Steady) : scope.vocabulary.Functional := by
  rintro ref s s' ⟨j, k, hs⟩ ⟨j', k', hs'⟩
  exact (h ref).result_unique hs hs'

namespace Filter

open Compile Fragments

variable {V : Vocabulary} {field : Value}

theorem comparison_alike (symbol : String) (v w : Value) :
    Fragments.Alike (comparison field symbol v) (comparison field symbol w) :=
  .cons (.text _) (.cons (.value v w) .nil)

theorem patternMatch_alike (v w : Value) :
    Fragments.Alike (patternMatch field v) (patternMatch field w) :=
  .cons (.text _) (.cons (.value _ _) .nil)

theorem containment_alike (t u : String) :
    Fragments.Alike (containment field t) (containment field u) :=
  Fragments.Alike.around (.cons (.value _ _) .nil) _ _

theorem membersOf_alike {items items' : List Fragments} (m : Membership)
    (h : List.Forall₂ Fragments.Alike items items') :
    Fragments.Alike (membersOf field m items) (membersOf field m items') :=
  (alike_joined h ", ").around _ _

theorem any_isSubquery_eq {vs ws : List Value} (h : List.Forall₂ AlikeItem vs ws) :
    vs.any Value.isSubquery = ws.any Value.isSubquery := by
  induction h with
  | nil => rfl
  | cons hitem _ ih =>
    rcases hitem with rfl | ⟨hv, hw⟩
    · rw [List.any_cons, List.any_cons, ih]
    · rw [List.any_cons, List.any_cons, hv, hw, ih]

theorem SpellsItems.alike (hV : V.Functional) {vs ws : List Value} {rows rows' : List Fragments}
    (h : SpellsItems V vs rows) (hitems : List.Forall₂ AlikeItem vs ws)
    (h' : SpellsItems V ws rows') : List.Forall₂ Fragments.Alike rows rows' := by
  induction h generalizing ws rows' with
  | nil =>
    cases hitems
    cases h'
    exact .nil
  | @subquery ref s vs rows embedded _ ih =>
    cases hitems with
    | cons hitem hitems =>
      rcases hitem with rfl | ⟨hv, -⟩
      · cases h' with
        | subquery embedded' rest' =>
          obtain rfl := hV ref _ _ embedded embedded'
          exact .cons (.cons (.whole _) .nil) (ih hitems rest')
        | value plain => cases plain
      · cases hv
  | value plain _ ih =>
    cases hitems with
    | cons hitem hitems =>
      cases h' with
      | subquery embedded' rest' =>
        rcases hitem with rfl | ⟨-, hw⟩
        · cases plain
        · cases hw
      | value plain' rest' => exact .cons (.cons (.value _ _) .nil) (ih hitems rest')

theorem forall₂_map_alike {α β : Type} {xs : List α} {ys : List β} {f : α → Fragments}
    {g : β → Fragments} (hlength : xs.length = ys.length)
    (h : ∀ x y, Fragments.Alike (f x) (g y)) :
    List.Forall₂ Fragments.Alike (xs.map f) (ys.map g) := by
  induction xs generalizing ys with
  | nil => cases ys with
    | nil => exact .nil
    | cons y ys => cases hlength
  | cons x xs ih => cases ys with
    | nil => cases hlength
    | cons y ys => exact .cons (h x y) (ih (Nat.succ.inj hlength))

theorem SpellsMembers.alike (hV : V.Functional) {m : Membership} {vs ws : List Value}
    {fs gs : Fragments} (h : SpellsMembers V field m vs fs) (hitems : List.Forall₂ AlikeItem vs ws)
    (h' : SpellsMembers V field m ws gs) : Fragments.Alike fs gs := by
  have hany := any_isSubquery_eq hitems
  have hlength := hitems.length_eq
  have hnil : vs = [] ↔ ws = [] := by
    rw [← List.length_eq_zero_iff, hlength, List.length_eq_zero_iff]
  cases h with
  | empty =>
    cases h' with
    | empty => exact .cons (.text _) .nil
    | mixed some => simp [hnil.mp rfl] at some
    | contained nonempty => exact absurd (hnil.mp rfl) nonempty
    | listed nonempty => exact absurd (hnil.mp rfl) nonempty
  | mixed some items =>
    cases h' with
    | empty => simp [hnil.mpr rfl] at some
    | mixed _ items' => exact membersOf_alike m (items.alike hV hitems items')
    | contained _ plain => simp_all
    | listed _ plain => simp_all
  | contained nonempty plain encoded =>
    cases h' with
    | empty => exact absurd (hnil.mpr rfl) nonempty
    | mixed some => simp_all
    | contained _ _ encoded' =>
      refine (alike_joined (forall₂_map_alike ?_ containment_alike) " AND ").around _ _
      rw [← encoded.length_eq, hlength, encoded'.length_eq]
    | listed _ _ keyword => exact absurd rfl keyword
  | listed nonempty plain keyword =>
    cases h' with
    | empty => exact absurd (hnil.mpr rfl) nonempty
    | mixed some => simp_all
    | contained => exact absurd rfl keyword
    | listed =>
      exact membersOf_alike m (forall₂_map_alike hlength fun v w => .cons (.value v w) .nil)

theorem SpellsSimple.alike (hV : V.Functional) {operator : Operator} {v w : Value}
    {fs gs : Fragments} (h : SpellsSimple V field operator v fs)
    (hoperand : AlikeOperand operator v w) (h' : SpellsSimple V field operator w gs) :
    Fragments.Alike fs gs := by
  cases h with
  | compare c =>
    cases h'
    exact comparison_alike c.symbol v w
  | @member m _ vs fs items members =>
    cases hoperand with
    | bound binds => cases binds
    | members sequence sequence' alike =>
      obtain rfl := Option.some.inj (sequence.symm.trans items)
      cases h' with
      | member items' members' =>
        obtain rfl := Option.some.inj (sequence'.symm.trans items')
        exact members.alike hV alike members'
  | present =>
    cases hoperand with
    | bound binds => cases binds
    | present truthy =>
      cases h'
      rw [truthy]
      exact .cons (.text _) .nil
  | size =>
    cases h'
    exact .cons (.text _) (.cons (.value v w) .nil)
  | element =>
    cases h'
    exact containment_alike _ _
  | regex =>
    cases h'
    exact patternMatch_alike v w
  | like =>
    cases h'
    exact .cons (.text _) (.cons (.value v w) .nil)
  | negatedText s =>
    cases h' <;> exact (patternMatch_alike _ _).around _ _
  | negatedPattern source =>
    cases h' <;> exact (patternMatch_alike _ _).around _ _

theorem fieldConjunction_alike {rows rows' : List Fragments}
    (h : List.Forall₂ Fragments.Alike rows rows') :
    Fragments.Alike (fieldConjunction rows) (fieldConjunction rows') := by
  match h with
  | .nil => exact .nil
  | .cons hfirst .nil => exact hfirst
  | .cons hfirst (.cons hsecond hrest) =>
    exact (alike_joined (.cons hfirst (.cons hsecond hrest)) " AND ").around _ _

theorem conjunction_alike {rows rows' : List Fragments}
    (h : List.Forall₂ Fragments.Alike rows rows') :
    Fragments.Alike (conjunction rows) (conjunction rows') := by
  match h with
  | .nil => exact .cons (.text _) .nil
  | .cons hfirst hrest => exact alike_joined (.cons hfirst hrest) " AND "

theorem spelled_alike (c : Connective) {rows rows' : List Fragments}
    (h : List.Forall₂ Fragments.Alike rows rows') :
    Fragments.Alike (c.spelled rows) (c.spelled rows') := by
  have hparts : List.Forall₂ Fragments.Alike (rows.map fun fs => around "(" fs ")")
      (rows'.map fun fs => around "(" fs ")") :=
    List.rel_map (fun _ _ hrow => hrow.around _ _) h
  cases h with
  | nil => cases c <;> exact .cons (.text _) .nil
  | cons hfirst hrest =>
    cases c with
    | all => exact alike_joined hparts " AND "
    | any => exact (alike_joined hparts " OR ").around _ _
    | none => exact (alike_joined hparts " OR ").around _ _

theorem SpellsOperators.of_unmarked {key operand : Value} {es : Entries} {rows : List Fragments}
    (unmarked : key.operator? = none) (h : SpellsOperators V field ((key, operand) :: es) rows) :
    ∃ rest, SpellsOperators V field es rest ∧ rows = comparison field "=" operand :: rest := by
  cases h with
  | plain _ rest => exact ⟨_, rest, rfl⟩
  | operator marked => cases unmarked.symm.trans marked

theorem SpellsOperators.of_marked {key operand : Value} {name : String} {es : Entries}
    {rows : List Fragments} (marked : key.operator? = some name)
    (h : SpellsOperators V field ((key, operand) :: es) rows) :
    ∃ fs rest, SpellsOperator V field name operand fs ∧ SpellsOperators V field es rest ∧
      rows = fs :: rest := by
  cases h with
  | plain unmarked => cases unmarked.symm.trans marked
  | operator marked' first rest =>
    obtain rfl := Option.some.inj (marked'.symm.trans marked)
    exact ⟨_, _, first, rest, rfl⟩

theorem SpellsOperator.of_subquery (hP : V.Plain) {name : String} {ref : SubQueryRef}
    {fs : Fragments} (h : SpellsOperator V field name (.subquery ref) fs) :
    ∃ s, V.subquery ref s ∧ fs = rowsOf field (if name = "$nin" then "NOT IN" else "IN") s := by
  cases h with
  | plugged registered => cases (hP name).symm.trans registered
  | subquery _ embedded => exact ⟨_, embedded, rfl⟩
  | simple _ _ single => cases single

mutual

theorem SpellsOperators.alike (hP : V.Plain) (hV : V.Functional) {es es' : Entries}
    {rows rows' : List Fragments} : SpellsOperators V field es rows → AlikeOperators es es' →
    SpellsOperators V field es' rows' → List.Forall₂ Fragments.Alike rows rows'
  | .nil, halike, h' => by
    cases halike
    cases h'
    exact .nil
  | .plain unmarked rest, halike, h' => by
    cases halike with
    | plain _ w _ halike =>
      obtain ⟨rest', hrest', rfl⟩ := h'.of_unmarked unmarked
      exact .cons (comparison_alike "=" _ _) (rest.alike hP hV halike hrest')
    | subquery ref halike =>
      obtain ⟨rest', hrest', rfl⟩ := h'.of_unmarked unmarked
      exact .cons (comparison_alike "=" _ _) (rest.alike hP hV halike hrest')
    | operator marked => cases unmarked.symm.trans marked
  | .operator marked first rest, halike, h' => by
    cases halike with
    | plain unmarked => cases unmarked.symm.trans marked
    | subquery ref halike =>
      obtain ⟨gs, rest', hfirst', hrest', rfl⟩ := h'.of_marked marked
      obtain ⟨s, hs, rfl⟩ := first.of_subquery hP
      obtain ⟨s', hs', rfl⟩ := hfirst'.of_subquery hP
      obtain rfl := hV ref s s' hs hs'
      exact .cons (.cons (.text _) (.cons (.whole s) .nil)) (rest.alike hP hV halike hrest')
    | operator marked' known single single' operand halike =>
      obtain rfl := Option.some.inj (marked'.symm.trans marked)
      obtain ⟨gs, rest', hfirst', hrest', rfl⟩ := h'.of_marked marked
      exact .cons (first.alike hP hV known single single' operand hfirst')
        (rest.alike hP hV halike hrest')

theorem SpellsOperator.alike (hP : V.Plain) (hV : V.Functional) {name : String}
    {operator : Operator} {v w : Value} {fs gs : Fragments}
    (known : Operator.ofName? name = some operator) (single : v.isSubquery = false)
    (single' : w.isSubquery = false) :
    SpellsOperator V field name v fs → AlikeOperand operator v w →
    SpellsOperator V field name w gs → Fragments.Alike fs gs
  | .plugged registered _, _, _ => nomatch (hP name).symm.trans registered
  | .subquery _ _, _, _ => nomatch single
  | .negation _ negated operators, halike, h' => by
    obtain rfl := Option.some.inj (known.symm.trans negated)
    cases halike with
    | bound binds => cases binds
    | pattern text => cases text
    | negation halike =>
      cases h' with
      | plugged registered => cases (hP name).symm.trans registered
      | negation _ _ operators' =>
        exact (fieldConjunction_alike (operators.alike hP hV halike operators')).around _ _
      | simple _ known' _ applied =>
        obtain rfl := Option.some.inj (known'.symm.trans known)
        cases applied
  | .simple _ known₁ _ applied, halike, h' => by
    obtain rfl := Option.some.inj (known₁.symm.trans known)
    cases h' with
    | plugged registered => cases (hP name).symm.trans registered
    | subquery => cases single'
    | negation _ negated _ =>
      obtain rfl := Option.some.inj (known.symm.trans negated)
      cases halike with
      | bound binds => cases binds
      | pattern _ text => cases text
      | negation => cases applied
    | simple _ known' _ applied' =>
      obtain rfl := Option.some.inj (known'.symm.trans known)
      exact applied.alike hV halike applied'

end

mutual

theorem Spells.alike (hP : V.Plain) (hV : V.Functional) {tree tree' : Value}
    {fs gs : Fragments} : Spells V tree fs → Alike tree tree' → Spells V tree' gs →
    Fragments.Alike fs gs
  | .null, halike, h' => by
    cases halike
    cases h'
    exact conjunction_alike .nil
  | .map entries, halike, h' => by
    cases halike with
    | map halike =>
      cases h' with
      | map entries' => exact conjunction_alike (entries.alike hP hV halike entries')
termination_by structural h => h

theorem SpellsEntries.alike (hP : V.Plain) (hV : V.Functional) {es es' : Entries}
    {rows rows' : List Fragments} : SpellsEntries V es rows → AlikeEntries es es' →
    SpellsEntries V es' rows' → List.Forall₂ Fragments.Alike rows rows'
  | .nil, halike, h' => by
    cases halike
    cases h'
    exact .nil
  | .silent first nothing rest, halike, h' => by
    cases halike with
    | cons hentry halike =>
      cases h' with
      | silent _ _ rest' => exact rest.alike hP hV halike rest'
      | cons first' something rest' =>
        have hsql := (first.alike hP hV hentry first').sql_eq
        exact absurd (hsql.symm.trans nothing) something
  | .cons first something rest, halike, h' => by
    cases halike with
    | cons hentry halike =>
      cases h' with
      | silent first' nothing rest' =>
        have hsql := (first.alike hP hV hentry first').sql_eq
        exact absurd (hsql.trans nothing) something
      | cons first' _ rest' =>
        exact .cons (first.alike hP hV hentry first') (rest.alike hP hV halike rest')
termination_by structural h => h

theorem SpellsEntry.alike (hP : V.Plain) (hV : V.Functional) {key v w : Value}
    {fs gs : Fragments} : SpellsEntry V key v fs → AlikeEntry key v w →
    SpellsEntry V key w gs → Fragments.Alike fs gs
  | .group marked known sequence filters, halike, h' => by
    cases halike with
    | group _ sequence₁ sequence₂ halike =>
      obtain rfl := Option.some.inj (sequence.symm.trans sequence₁)
      cases h' with
      | group marked' known' sequence' filters' =>
        obtain rfl := Option.some.inj (marked'.symm.trans marked)
        obtain rfl := Option.some.inj (known'.symm.trans known)
        obtain rfl := Option.some.inj (sequence'.symm.trans sequence₂)
        exact spelled_alike _ (filters.alike hP hV halike filters')
      | subquery unmarked => cases unmarked.symm.trans marked
      | operators unmarked => cases unmarked.symm.trans marked
      | literal unmarked => cases unmarked.symm.trans marked
    | subquery => cases sequence
    | operators unmarked => cases unmarked.symm.trans marked
    | literal unmarked => cases unmarked.symm.trans marked
  | .subquery unmarked embedded, halike, h' => by
    cases halike with
    | group marked => cases unmarked.symm.trans marked
    | subquery =>
      cases h' with
      | group marked => cases unmarked.symm.trans marked
      | subquery _ embedded' =>
        obtain rfl := hV _ _ _ embedded embedded'
        exact .cons (.text _) (.cons (.whole _) .nil)
      | literal _ single => cases single
    | literal _ single => cases single
  | .operators unmarked operators, halike, h' => by
    cases halike with
    | group marked => cases unmarked.symm.trans marked
    | operators _ halike =>
      cases h' with
      | group marked => cases unmarked.symm.trans marked
      | operators _ operators' =>
        exact fieldConjunction_alike (operators.alike hP hV halike operators')
      | literal _ _ flat => cases flat
    | literal _ _ flat => cases flat
  | .literal unmarked single flat, halike, h' => by
    cases halike with
    | group marked => cases unmarked.symm.trans marked
    | subquery => cases single
    | operators => cases flat
    | literal _ _ _ single' flat' =>
      cases h' with
      | group marked => cases unmarked.symm.trans marked
      | subquery => cases single'
      | operators => cases flat'
      | literal => exact comparison_alike "=" v w
termination_by structural h => h

theorem SpellsChildren.alike (hP : V.Plain) (hV : V.Functional) {children children' : List Value}
    {rows rows' : List Fragments} : SpellsChildren V children rows →
    AlikeChildren children children' → SpellsChildren V children' rows' →
    List.Forall₂ Fragments.Alike rows rows'
  | .nil, halike, h' => by
    cases halike
    cases h'
    exact .nil
  | .vacuous first always rest, halike, h' => by
    cases halike with
    | cons hfirst halike =>
      cases h' with
      | vacuous _ _ rest' => exact rest.alike hP hV halike rest'
      | cons first' restricting rest' =>
        have hsql := (first.alike hP hV hfirst first').sql_eq
        exact absurd (hsql ▸ always) restricting
  | .cons first restricting rest, halike, h' => by
    cases halike with
    | cons hfirst halike =>
      cases h' with
      | vacuous first' always rest' =>
        have hsql := (first.alike hP hV hfirst first').sql_eq
        exact absurd (hsql ▸ always) restricting
      | cons first' _ rest' =>
        exact .cons (first.alike hP hV hfirst first') (rest.alike hP hV halike rest')
termination_by structural h => h

end

/-- Two runs on alike filters that apply no operator with a handler: what is written is the same,
and as many values are bound. -/
theorem Alike.compile_alike {scope : Scope} (hs : scope.Steady) {tree tree' : Value}
    (halike : Alike tree tree') (hu : Unplugged scope tree) (hu' : Unplugged scope tree')
    {context context' s s' : String} {d d' k k' : Draft}
    (h : compile scope context tree d = .ok s k)
    (h' : compile scope context' tree' d' = .ok s' k') :
    s = s' ∧ ∃ vs ws, k.params = d.params ++ vs ∧ k'.params = d'.params ++ ws ∧
      vs.length = ws.length := by
  have hplain : scope.bare.Plain := fun _ => rfl
  have hsteady : scope.bare.Steady := hs
  rw [hu.compile_bare] at h
  rw [hu'.compile_bare] at h'
  obtain ⟨vs, hvs, fs, hfs, rfl, rfl⟩ := (compile_spelled hplain.appends.within).1 _ _ _ _ _ h
  obtain ⟨ws, hws, gs, hgs, rfl, rfl⟩ := (compile_spelled hplain.appends.within).1 _ _ _ _ _ h'
  have hfragments := hfs.alike hplain.vocabulary hsteady.functional halike hgs
  exact ⟨hfragments.sql_eq, fs.params, gs.params, hvs, hws, hfragments.params_length⟩

theorem Alike.collect_alike {scope : Scope} (hs : scope.Steady) {tree tree' : Value}
    (halike : Alike tree tree') (hu : Unplugged scope tree) (hu' : Unplugged scope tree')
    {context context' s s' : String} {params params' vs ws : List Value} {j j' k k' : Journal}
    (h : collect params (compile scope context tree) j = .ok (s, vs) k)
    (h' : collect params' (compile scope context' tree') j' = .ok (s', ws) k')
    (hlength : params.length = params'.length) : s = s' ∧ vs.length = ws.length := by
  obtain ⟨d, hd, rfl⟩ := collect_run h
  obtain ⟨d', hd', rfl⟩ := collect_run h'
  obtain ⟨hsql, ps, ps', hps, hps', hcount⟩ := halike.compile_alike hs hu hu' hd hd'
  refine ⟨hsql, ?_⟩
  rw [hps, hps', List.length_append, List.length_append, hlength, hcount]

end Filter

end BoundQuery
