import BoundQuery.Proofs.Demand

/-! A filter compiled in two scopes, or at two paths. What relates the steps that every filter may
take, and passes from steps to the whole, relates the two compilations if it relates what the scopes
have for the demands of the filter. That scopes which answer alike compile alike is one case. -/
namespace BoundQuery

section Errors

theorem except_bind_eq_error {α β : Type} {x : Except Error α} {f : α → Except Error β} {e : Error}
    (h : (x >>= f) = .error e) : x = .error e ∨ ∃ a, x = .ok a ∧ f a = .error e := by
  cases x with
  | ok a => exact .inr ⟨a, rfl, h⟩
  | error e' =>
    cases h
    exact .inl rfl

theorem Value.texts_fails {vs : List Value} {e : Error} (h : texts vs = .error e) : e = .unfit := by
  induction vs with
  | nil => cases h
  | cons v vs ih =>
    cases v with
    | str s =>
      rcases except_bind_eq_error h with h | ⟨ss, -, h⟩
      · exact ih h
      · cases h
    | _ =>
      cases h
      rfl

theorem Value.join_fails {separator : String} {vs : List Value} {e : Error}
    (h : join separator vs = .error e) : e = .unfit := by
  rcases except_bind_eq_error h with h | ⟨ss, -, h⟩
  · exact texts_fails h
  · cases h

mutual

theorem Value.json_fails {e : Error} : (v : Value) → v.json = .error e → e = .unfit
  | .list items, h => by
    rw [Value.json] at h
    rcases except_bind_eq_error h with h | ⟨ts, -, h⟩
    · exact jsonItems_fails items h
    · cases h
  | .tuple items, h => by
    rw [Value.json] at h
    rcases except_bind_eq_error h with h | ⟨ts, -, h⟩
    · exact jsonItems_fails items h
    · cases h
  | .map es, h => by
    rw [Value.json] at h
    rcases except_bind_eq_error h with h | ⟨ts, -, h⟩
    · exact jsonEntries_fails es h
    · cases h
  | .null, h => by simp [Value.json] at h
  | .bool _, h => by simp [Value.json] at h
  | .int _, h => by simp [Value.json] at h
  | .real _, h => by simp [Value.json] at h
  | .str _, h => by simp [Value.json] at h
  | .bytes _, h => by simp [Value.json] at h
  | .pattern _, h => by simp [Value.json] at h
  | .foreign _, h => by simp [Value.json] at h
  | .subquery _, h => by simp [Value.json] at h
  | .record _ _, h => by simp [Value.json] at h

theorem jsonItems_fails {e : Error} : (vs : List Value) → jsonItems vs = .error e → e = .unfit
  | [], h => by simp [jsonItems] at h
  | v :: vs, h => by
    rw [jsonItems] at h
    rcases except_bind_eq_error h with h | ⟨t, -, h⟩
    · exact Value.json_fails v h
    · rcases except_bind_eq_error h with h | ⟨ts, -, h⟩
      · exact jsonItems_fails vs h
      · cases h

theorem jsonEntries_fails {e : Error} :
    (es : List (Value × Value)) → jsonEntries es = .error e → e = .unfit
  | [], h => by simp [jsonEntries] at h
  | (key, v) :: es, h => by
    have hkey : ∀ {e}, Json.key key = .error e → e = .unfit := by
      intro e h
      unfold Json.key at h
      split at h
      all_goals cases h
      rfl
    rw [jsonEntries] at h
    rcases except_bind_eq_error h with h | ⟨k, -, h⟩
    · exact hkey h
    · rcases except_bind_eq_error h with h | ⟨t, -, h⟩
      · exact Value.json_fails v h
      · rcases except_bind_eq_error h with h | ⟨ts, -, h⟩
        · exact jsonEntries_fails es h
        · cases h

end

def Error.OfFilter : Error → Prop
  | .malformed _ _ => True
  | .unsupported _ _ _ => True
  | .unfit => True
  | _ => False

theorem Filter.conjoined_fails (clauses : List Value) {e : Error}
    (h : conjoined clauses = .error e) : e = .unfit := by
  match clauses with
  | [] => cases h
  | [_] => cases h
  | _ :: _ :: _ =>
    rcases except_bind_eq_error h with h | ⟨s, -, h⟩
    · exact Value.join_fails h
    · cases h

end Errors

/-- A relation between computations that passes from their steps to the whole, and that relates the
steps which every filter may take, at paths that correspond. -/
structure Compile.Correspondence (K : String → String → Prop)
    (R : (α : Type) → Compile α → Compile α → Prop) : Prop where
  step : ∀ {path path' : String} (name : String), K path path' →
    K (Filter.step path name) (Filter.step path' name)
  pure : ∀ {α : Type} (a : α), R α (pure a) (pure a)
  bind : ∀ {α β : Type} {c c' : Compile α} {f f' : α → Compile β}, R α c c' →
    (∀ a, R β (f a) (f' a)) → R β (c >>= f) (c' >>= f')
  unfit : ∀ {α : Type}, R α (throw .unfit) (throw .unfit)
  malformed : ∀ {α : Type} {path path' : String} (fault : Fault), K path path' →
    R α (throw (.malformed fault (.str path))) (throw (.malformed fault (.str path')))
  unsupported : ∀ {α : Type} {path path' : String} (field name : Value), K path path' →
    R α (throw (.unsupported field name (.str path))) (throw (.unsupported field name (.str path')))
  bindAll : ∀ values, R Unit (Compile.bindAll values) (Compile.bindAll values)
  note : ∀ {path path' : String} (e : String → List Value → Event), K path path' →
    R Unit (get >>= fun d => Compile.note (e path d.params))
      (get >>= fun d => Compile.note (e path' d.params))

namespace Compile.Correspondence

variable {K : String → String → Prop} {R : (α : Type) → Compile α → Compile α → Prop}
  (hR : Correspondence K R) {α β : Type}

include hR

theorem map {c c' : Compile α} {f : α → β} (hc : R α c c') : R β (f <$> c) (f <$> c') := by
  rw [map_eq_pure_bind, map_eq_pure_bind]
  exact hR.bind hc fun a => hR.pure (f a)

theorem bindValue (value : Value) : R Unit (Compile.bindValue value) (Compile.bindValue value) :=
  hR.bindAll [value]

/-- Where a value is of a kind that cannot be worked with. -/
theorem ofFit {x : Except Error α} (h : ∀ e, x = .error e → e = .unfit) :
    R α (liftM x : Compile α) (liftM x : Compile α) := by
  cases x with
  | ok a => exact hR.pure a
  | error e =>
    obtain rfl := h e rfl
    exact hR.unfit

end Compile.Correspondence

def Scope.Corresponds (K : String → String → Prop)
    (R : (α : Type) → Compile α → Compile α → Prop) (scope scope' : Scope) : Demand → Prop
  | .operator field name operand => Option.Rel
      (fun h h' => ∀ path path', K path path' →
        R Value (h.run field operand path) (h'.run field operand path'))
      (scope.registry.find? name) (scope'.registry.find? name)
  | .subquery ref => R Statement (liftM (scope.embed ref)) (liftM (scope'.embed ref))

namespace Filter

open Compile

section Corresponding

variable {K : String → String → Prop} {R : (α : Type) → Compile α → Compile α → Prop}
  (hR : Correspondence K R) {scope scope' : Scope} {field : Value} {path path' : String}

include hR

theorem compared_related (symbol : String) (v : Value) :
    R Value (compared field symbol v) (compared field symbol v) :=
  hR.bind (hR.bindValue v) fun _ => hR.pure _

theorem membership_related {ref : SubQueryRef} (h : scope.Corresponds K R scope' (.subquery ref))
    (keyword : String) :
    R Value (membership scope field ref keyword) (membership scope' field ref keyword) :=
  hR.bind h fun s => hR.bind (hR.bindAll s.params) fun _ => hR.pure _

theorem mixedItems_related {vs : List Value}
    (h : ∀ d ∈ itemDemands vs, scope.Corresponds K R scope' d) :
    R (List String) (mixedItems scope vs) (mixedItems scope' vs) := by
  induction vs with
  | nil => exact hR.pure []
  | cons v vs ih =>
    cases v with
    | subquery ref =>
      obtain ⟨hfirst, hrest⟩ := List.forall_mem_cons.mp h
      refine hR.bind hfirst fun s => hR.bind (hR.bindAll s.params) fun _ => ?_
      exact hR.bind (ih hrest) fun _ => hR.pure _
    | _ => exact hR.bind (hR.bindValue _) fun _ => hR.bind (ih h) fun _ => hR.pure _

theorem containments_related (vs : List Value) :
    R (List String) (containments field vs) (containments field vs) := by
  induction vs with
  | nil => exact hR.pure []
  | cons v vs ih =>
    refine hR.bind (hR.ofFit fun e => Value.json_fails v) fun t => ?_
    exact hR.bind (hR.bindValue (.str t)) fun _ => hR.bind ih fun _ => hR.pure _

theorem memberOf_related {vs : List Value}
    (h : ∀ d ∈ itemDemands vs, scope.Corresponds K R scope' d) (name : String) (m : Membership)
    (hpath : K path path') :
    R Value (memberOf scope field name m path vs) (memberOf scope' field name m path' vs) := by
  unfold memberOf
  split
  · exact hR.bind (hR.note (fun path _ => .emptyList name field path) hpath) fun _ => hR.pure _
  · split
    · exact hR.bind (mixedItems_related hR h) fun _ => hR.pure _
    · cases m with
      | containsAll => exact hR.bind (containments_related hR vs) fun _ => hR.pure _
      | among => exact hR.bind (hR.bindAll vs) fun _ => hR.pure _
      | outside => exact hR.bind (hR.bindAll vs) fun _ => hR.pure _

theorem matchesPattern_related (v : Value) :
    R Value (matchesPattern field v) (matchesPattern field v) :=
  hR.bind (hR.bindValue _) fun _ => hR.pure _

theorem applySimple_related {name : String} {operand : Value}
    (h : ∀ d ∈ operandDemands field name operand, scope.Corresponds K R scope' d)
    (operator : Operator) (hpath : K path path') :
    R Value (applySimple scope field name operator path operand)
      (applySimple scope' field name operator path' operand) := by
  cases operator with
  | compare c => exact compared_related hR c.symbol operand
  | member m =>
    simp only [applySimple]
    cases hvs : operand.sequence? with
    | some vs =>
      rw [operandDemands_of_sequence? hvs] at h
      exact memberOf_related hR h name m hpath
    | none => exact hR.malformed _ hpath
  | present => exact hR.pure _
  | size => exact hR.bind (hR.bindValue operand) fun _ => hR.pure _
  | element =>
    refine hR.bind (hR.ofFit fun e => Value.json_fails operand) fun t => ?_
    exact hR.bind (hR.bindValue (.str t)) fun _ => hR.pure _
  | regex => exact matchesPattern_related hR operand
  | like => exact hR.bind (hR.bindValue operand) fun _ => hR.pure _
  | negation =>
    simp only [applySimple]
    split
    · exact hR.map (matchesPattern_related hR _)
    · exact hR.map (matchesPattern_related hR _)
    · exact hR.malformed _ hpath

theorem condition_related (clauses : List Value) (hpath : K path path') :
    R String (condition path clauses) (condition path' clauses) := by
  have hnote : ∀ text : String, R String
      (do let d ← get; Compile.note (.condition path text d.params); return text)
      (do let d ← get; Compile.note (.condition path' text d.params); return text) := by
    intro text
    have hreport := hR.note (fun path params => .condition path text params) hpath
    have hwhole := hR.bind hreport fun _ => hR.pure text
    rwa [bind_assoc, bind_assoc] at hwhole
  unfold condition
  split
  · exact hnote _
  · exact hR.bind (hR.ofFit fun e => Value.join_fails) hnote

theorem checkChildren_related (name : String) (children : List Value) (hpath : K path path') :
    R Unit (liftM (Entry.checkChildren name path children) : Compile Unit)
      (liftM (Entry.checkChildren name path' children) : Compile Unit) := by
  induction children with
  | nil => exact hR.pure ()
  | cons child children ih =>
    cases child with
    | map es => exact ih
    | _ => exact hR.malformed _ hpath

theorem connective_related (name : String) (hpath : K path path') :
    R Connective (liftM (Entry.connective name path) : Compile Connective)
      (liftM (Entry.connective name path') : Compile Connective) := by
  unfold Entry.connective
  cases Connective.ofName? name with
  | some c => exact hR.pure c
  | none => exact hR.unsupported _ _ hpath

omit hR in
/-- Where there is no handler in one scope, there is none in the other. -/
theorem find?_eq_none {name : String} {operand : Value}
    (h : scope.Corresponds K R scope' (.operator field name operand))
    (hfind : scope.registry.find? name = none) : scope'.registry.find? name = none := by
  simp only [Scope.Corresponds, hfind] at h
  generalize scope'.registry.find? name = found at h
  cases h
  rfl

theorem operators_related :
    (∀ path entries path', (∀ d ∈ operatorsDemands field entries, scope.Corresponds K R scope' d) →
      K path path' → R (List Value) (operatorClauses scope field path entries)
        (operatorClauses scope' field path' entries)) ∧
    ∀ name path operand path', scope.Corresponds K R scope' (.operator field name operand) →
      (∀ d ∈ operandDemands field name operand, scope.Corresponds K R scope' d) → K path path' →
      R Value (applyOperator scope field name path operand)
        (applyOperator scope' field name path' operand) := by
  apply operatorClauses.mutual_induct scope field
  case case1 => -- a handler
    intro operand name path handler hfind path' h _ hpath
    simp only [Scope.Corresponds, hfind] at h
    cases hfind' : scope'.registry.find? name with
    | none =>
      rw [hfind'] at h
      cases h
    | some handler' =>
      rw [hfind'] at h
      cases h with
      | some hrun =>
        rw [applyOperator.eq_def, applyOperator.eq_def scope']
        simp only [hfind, hfind']
        refine hR.bind (hrun path path' hpath) fun clause => ?_
        exact hR.bind (hR.note (fun path _ => .plugged name path field clause) hpath) fun _ =>
          hR.pure _
  case case2 => -- a sub-query
    intro name path hfind ref path' h hoperand hpath
    rw [operandDemands] at hoperand
    rw [applyOperator.eq_def, applyOperator.eq_def scope']
    simp only [hfind, find?_eq_none h hfind]
    exact membership_related hR (hoperand _ List.mem_cons_self) _
  case case3 => -- operators under an unknown name
    intro name path hfind entry entries hname path' h _ hpath
    rw [applyOperator.eq_def, applyOperator.eq_def scope']
    simp only [hfind, find?_eq_none h hfind, hname]
    exact hR.unsupported _ _ hpath
  case case4 => -- operators that are negated
    intro name path hfind entry entries hname ih path' h hoperand hpath
    rw [operandDemands, hname] at hoperand
    rw [applyOperator.eq_def, applyOperator.eq_def scope']
    simp only [hfind, find?_eq_none h hfind, hname]
    exact hR.bind (ih _ hoperand (hR.step "$not" hpath)) fun clauses =>
      hR.map (hR.ofFit fun e => conjoined_fails clauses)
  case case5 => -- a map under any other operator
    intro name path hfind entry entries operator hop hname path' h hoperand hpath
    rw [applyOperator.eq_def, applyOperator.eq_def scope']
    simp only [hfind, find?_eq_none h hfind, hname]
    exact applySimple_related hR hoperand operator hpath
  case case6 => -- any other operand, under an unknown name
    intro name path hfind operand hsub hmap hname path' h _ hpath
    rw [applyOperator.eq_def, applyOperator.eq_def scope']
    simp only [hfind, find?_eq_none h hfind, hname]
    exact hR.unsupported _ _ hpath
  case case7 => -- any other operand
    intro name path hfind operand hsub hmap operator hname path' h hoperand hpath
    rw [applyOperator.eq_def, applyOperator.eq_def scope']
    simp only [hfind, find?_eq_none h hfind, hname]
    exact applySimple_related hR hoperand operator hpath
  case case8 => -- the end of the operators
    intro path path' _ _
    rw [operatorClauses, operatorClauses]
    exact hR.pure []
  case case9 => -- an operator before others
    intro path key operand rest operator hkey hrest hfirst path' h hpath
    simp only [operatorsDemands, hkey, List.cons_append, List.forall_mem_cons,
      List.forall_mem_append] at h
    rw [operatorClauses, operatorClauses]
    simp only [hkey]
    exact hR.bind (hfirst path' h.1 h.2.1 hpath) fun _ =>
      hR.bind (hrest path' h.2.2 hpath) fun _ => hR.pure _
  case case10 => -- a key without a mark before others
    intro path key operand rest hkey hrest path' h hpath
    simp only [operatorsDemands, hkey, List.nil_append] at h
    rw [operatorClauses, operatorClauses]
    simp only [hkey]
    exact hR.bind (compared_related hR "=" operand) fun _ =>
      hR.bind (hrest path' h hpath) fun _ => hR.pure _

theorem trees_related :
    (∀ path tree path', (∀ d ∈ demands tree, scope.Corresponds K R scope' d) → K path path' →
      R String (compile scope path tree) (compile scope' path' tree)) ∧
    (∀ path entries path', (∀ d ∈ entriesDemands entries, scope.Corresponds K R scope' d) →
      K path path' →
      R (List Value) (entryClauses scope path entries) (entryClauses scope' path' entries)) ∧
    (∀ path key value path', (∀ d ∈ entryDemands key value, scope.Corresponds K R scope' d) →
      K path path' →
      R Value (entryClause scope path key value) (entryClause scope' path' key value)) ∧
    ∀ path operator index children path',
      (∀ d ∈ childrenDemands children, scope.Corresponds K R scope' d) → K path path' →
      R (List String) (childClauses scope path operator index children)
        (childClauses scope' path' operator index children) := by
  apply compile.mutual_induct
  case case1 => -- no filter
    intro path path' _ hpath
    rw [compile.eq_1, compile.eq_1]
    exact condition_related hR [] hpath
  case case2 => -- a map
    intro path entries ih path' h hpath
    rw [demands] at h
    rw [compile.eq_2, compile.eq_2]
    exact hR.bind (ih path' h hpath) fun clauses => condition_related hR clauses hpath
  case case3 => -- what is no filter
    intro path v hnull hmap path' _ hpath
    rw [compile.eq_3 _ path v hnull hmap, compile.eq_3 _ path' v hnull hmap]
    exact hR.malformed _ hpath
  case case4 => -- an entry with a marked key
    intro value path key operator hkey ih path' h hpath
    simp only [entryDemands.eq_def, hkey] at h
    rw [entryClause.eq_def, entryClause.eq_def scope']
    simp only [hkey]
    refine hR.bind (connective_related hR operator hpath) fun c => ?_
    cases value with
    | list children =>
      exact hR.bind (checkChildren_related hR operator children hpath) fun _ =>
        hR.bind (ih path' h hpath) fun _ => hR.pure _
    | tuple children =>
      exact hR.bind (checkChildren_related hR operator children hpath) fun _ =>
        hR.bind (ih path' h hpath) fun _ => hR.pure _
    | _ => exact hR.malformed _ hpath
  case case5 => -- a field with a sub-query
    intro path key hkey ref path' h _
    simp only [entryDemands.eq_def, hkey] at h
    rw [entryClause.eq_def, entryClause.eq_def scope']
    simp only [hkey]
    exact membership_related hR (h _ List.mem_cons_self) "IN"
  case case6 => -- a field with operators
    intro path key hkey entries path' h hpath
    simp only [entryDemands.eq_def, hkey] at h
    rw [entryClause.eq_def, entryClause.eq_def scope']
    simp only [hkey]
    exact hR.bind ((operators_related hR).1 _ entries _ h (hR.step key.text hpath)) fun clauses =>
      hR.ofFit fun e => conjoined_fails clauses
  case case7 => -- a field with any other value
    intro path key hkey v hsub hmap path' _ _
    rw [entryClause.eq_def, entryClause.eq_def scope']
    simp only [hkey]
    exact compared_related hR "=" v
  case case8 => -- the end of a group
    intro path operator index path' _ _
    rw [childClauses, childClauses]
    exact hR.pure []
  case case9 => -- a filter of a group
    intro path operator index child rest hchild hrest path' h hpath
    rw [childrenDemands, List.forall_mem_append] at h
    rw [childClauses, childClauses]
    exact hR.bind (hchild _ h.1 (hR.step _ hpath)) fun _ =>
      hR.bind (hrest path' h.2 hpath) fun _ => hR.pure _
  case case10 => -- the end of a map
    intro path path' _ _
    rw [entryClauses, entryClauses]
    exact hR.pure []
  case case11 => -- an entry of a map
    intro path key value rest hentry hrest path' h hpath
    rw [entriesDemands, List.forall_mem_append] at h
    rw [entryClauses, entryClauses]
    exact hR.bind (hentry path' h.1 hpath) fun _ =>
      hR.bind (hrest path' h.2 hpath) fun _ => hR.pure _

/-- The compilations of a filter at paths that correspond are related if what it asks for is. -/
theorem compile_corresponds {tree : Value}
    (h : ∀ d ∈ demands tree, scope.Corresponds K R scope' d) (hpath : K path path') :
    R String (compile scope path tree) (compile scope' path' tree) :=
  (trees_related hR).1 path tree path' h hpath

end Corresponding

end Filter

/-- A relation between computations that passes from their steps to the whole, and that relates
each step to itself which every filter may take. -/
structure Compile.Congruence (R : (α : Type) → Compile α → Compile α → Prop) : Prop where
  pure : ∀ {α : Type} (a : α), R α (pure a) (pure a)
  bind : ∀ {α β : Type} {c c' : Compile α} {f f' : α → Compile β}, R α c c' →
    (∀ a, R β (f a) (f' a)) → R β (c >>= f) (c' >>= f')
  throw : ∀ {α : Type} {e : Error}, e.OfFilter → R α (throw e) (throw e)
  bindAll : ∀ values, R Unit (Compile.bindAll values) (Compile.bindAll values)
  note : ∀ e, R Unit (Compile.note e) (Compile.note e)
  bound : ∀ {α : Type} {f : List Value → Compile α}, (∀ params, R α (f params) (f params)) →
    R α (get >>= fun d => f d.params) (get >>= fun d => f d.params)

def Scope.Related (R : (α : Type) → Compile α → Compile α → Prop) (scope scope' : Scope) :
    Demand → Prop
  | .operator field name operand => Option.Rel
      (fun h h' => ∀ context, R Value (h.run field operand context) (h'.run field operand context))
      (scope.registry.find? name) (scope'.registry.find? name)
  | .subquery ref => R Statement (liftM (scope.embed ref)) (liftM (scope'.embed ref))

section Related

variable {R : (α : Type) → Compile α → Compile α → Prop} {scope scope' : Scope}

theorem Compile.Congruence.correspondence (hR : Congruence R) : Correspondence Eq R where
  step name hpath := congrArg (Filter.step · name) hpath
  pure := hR.pure
  bind := hR.bind
  unfit := hR.throw trivial
  malformed _ hpath := hpath ▸ hR.throw trivial
  unsupported _ _ hpath := hpath ▸ hR.throw trivial
  bindAll := hR.bindAll
  note e hpath := hpath ▸ hR.bound fun params => hR.note (e _ params)

theorem Scope.Related.corresponds {d : Demand} (h : scope.Related R scope' d) :
    scope.Corresponds Eq R scope' d := by
  cases d with
  | operator field name operand =>
    simp only [Scope.Related] at h
    simp only [Scope.Corresponds]
    generalize scope.registry.find? name = handler at h ⊢
    generalize scope'.registry.find? name = handler' at h ⊢
    cases h with
    | none => exact .none
    | some hrun => exact .some fun path path' hpath => hpath ▸ hrun path
  | subquery ref => exact h

/-- The compilations of a filter are related if what it asks for is. -/
theorem Filter.compile_related (hR : Compile.Congruence R) {tree : Value}
    (h : ∀ d ∈ demands tree, scope.Related R scope' d) (context : String) :
    R String (compile scope context tree) (compile scope' context tree) :=
  compile_corresponds hR.correspondence (fun d hd => (h d hd).corresponds) rfl

end Related

section Equality

variable {scope scope' : Scope}

theorem Compile.eq_congruence : Congruence fun _ c c' => c = c' where
  pure _ := rfl
  bind := by
    rintro α β c c' f f' rfl hf
    obtain rfl := funext hf
    rfl
  throw _ := rfl
  bindAll _ := rfl
  note _ := rfl
  bound _ := rfl

theorem Scope.AgreeOn.related {d : Demand} (h : scope.AgreeOn scope' d) :
    scope.Related (fun _ c c' => c = c') scope' d := by
  cases d with
  | operator field name operand =>
    simp only [Scope.AgreeOn] at h
    simp only [Scope.Related]
    cases hfind : scope.registry.find? name with
    | none =>
      rw [hfind, Option.map_none] at h
      rw [Option.map_eq_none_iff.mp h.symm]
      exact .none
    | some handler =>
      rw [hfind, Option.map_some] at h
      obtain ⟨handler', hfind', hsame⟩ := Option.map_eq_some_iff.mp h.symm
      rw [hfind']
      refine .some fun context => ?_
      funext d
      simp only [Handler.run, hsame]
  | subquery ref => exact congrArg _ h

namespace Filter

theorem trees_congr :
    (∀ context tree, (∀ d ∈ demands tree, scope.AgreeOn scope' d) →
      compile scope context tree = compile scope' context tree) ∧
    (∀ context entries, (∀ d ∈ entriesDemands entries, scope.AgreeOn scope' d) →
      entryClauses scope context entries = entryClauses scope' context entries) ∧
    (∀ context key value, (∀ d ∈ entryDemands key value, scope.AgreeOn scope' d) →
      entryClause scope context key value = entryClause scope' context key value) ∧
    ∀ context operator index children, (∀ d ∈ childrenDemands children, scope.AgreeOn scope' d) →
      childClauses scope context operator index children =
        childClauses scope' context operator index children := by
  have hR := Compile.eq_congruence.correspondence
  have hrelated := @trees_related _ _ hR scope scope'
  exact ⟨fun path tree h =>
      hrelated.1 path tree path (fun d hd => (h d hd).related.corresponds) rfl,
    fun path entries h =>
      hrelated.2.1 path entries path (fun d hd => (h d hd).related.corresponds) rfl,
    fun path key value h =>
      hrelated.2.2.1 path key value path (fun d hd => (h d hd).related.corresponds) rfl,
    fun path operator index children h => hrelated.2.2.2 path operator index children path
      (fun d hd => (h d hd).related.corresponds) rfl⟩

/-- A filter is compiled alike in scopes that agree on what it asks for. -/
theorem compile_congr {tree : Value} (h : ∀ d ∈ demands tree, scope.AgreeOn scope' d)
    (context : String) : compile scope context tree = compile scope' context tree :=
  trees_congr.1 context tree h

end Filter

end Equality

end BoundQuery
