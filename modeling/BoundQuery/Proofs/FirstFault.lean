import BoundQuery.Proofs.Document
import BoundQuery.Proofs.Node
import BoundQuery.Proofs.Vacuity

/-! Without handlers and sub-queries, a filter is compiled exactly if all its nodes are well
formed. Otherwise the error is that of the first node in the document that is not. -/
namespace BoundQuery

namespace Compile

variable {α β : Type} {c : Compile α} {P P' : α → Prop} {Q : β → Prop} {fault fault' : Option Error}

/-- The computation came to its end, with a result as `P` says, or it met the fault. -/
def Meets (fault : Option Error) (P : α → Prop) : EStateM.Result Error Draft α → Prop
  | .ok a _ => fault = none ∧ P a
  | .error e _ => fault = some e

/-- The computation meets the fault, if there is one, whatever was bound and reported before. -/
def Decides (c : Compile α) (fault : Option Error) (P : α → Prop) : Prop :=
  ∀ d, Meets fault P (c d)

namespace Decides

theorem pure {a : α} (h : P a) : Decides (Pure.pure a) none P := fun _ => ⟨rfl, h⟩

theorem throw (e : Error) : Decides (MonadExcept.throw e : Compile α) (some e) P := fun _ => rfl

/-- The fault of a sequence is the first one. -/
theorem bind {f : α → Compile β} (hc : Decides c fault P)
    (hf : ∀ a, P a → Decides (f a) fault' Q) : Decides (c >>= f) (fault.or fault') Q := by
  intro d
  have hd := hc d
  simp only [Bind.bind, EStateM.bind]
  cases hcd : c d with
  | ok a d' =>
    rw [hcd] at hd
    obtain ⟨rfl, ha⟩ := hd
    exact hf a ha d'
  | error e d' =>
    rw [hcd] at hd
    obtain rfl : fault = some e := hd
    rfl

/-- The last step, which cannot fail. -/
theorem last {f : α → Compile β} (hc : Decides c fault P)
    (hf : ∀ a, P a → Decides (f a) none Q) : Decides (c >>= f) fault Q := by
  have h := hc.bind hf
  rwa [Option.or_none] at h

theorem map {f : α → β} (hc : Decides c fault P) (h : ∀ a, P a → Q (f a)) :
    Decides (f <$> c) fault Q := by
  rw [map_eq_pure_bind]
  exact hc.last fun a ha => pure (h a ha)

theorem ofExcept {x : Except Error α} {a : α} (h : x = .ok a) (ha : P a) :
    Decides (liftM x : Compile α) none P := by
  subst h
  exact pure ha

theorem of_yields {a : α} {vs : List Value} (hc : Yields c a vs) (ha : P a) : Decides c none P := by
  intro d
  obtain ⟨j, hj⟩ := hc d
  rw [hj]
  exact ⟨rfl, ha⟩

/-- After a step that cannot fail. -/
theorem next {f : α → Compile β} {a : α} {vs : List Value} (hc : Yields c a vs)
    (hf : Decides (f a) fault Q) : Decides (c >>= f) fault Q := by
  refine (of_yields hc rfl).bind ?_
  rintro _ rfl
  exact hf

theorem returns_iff (hc : Decides c fault P) (d : Draft) :
    (∃ a d', c d = .ok a d') ↔ fault = none := by
  have hd := hc d
  constructor
  · rintro ⟨a, d', h⟩
    rw [h] at hd
    exact hd.1
  · intro h
    cases hcd : c d with
    | ok a d' => exact ⟨a, d', rfl⟩
    | error e d' =>
      rw [hcd] at hd
      exact absurd (h.symm.trans hd) nofun

theorem fails {e : Error} (hc : Decides c (some e) P) (d : Draft) : ∃ d', c d = .error e d' := by
  have hd := hc d
  cases hcd : c d with
  | ok a d' =>
    rw [hcd] at hd
    exact absurd hd.1 nofun
  | error e' d' =>
    rw [hcd] at hd
    exact ⟨d', by rw [Option.some.inj hd]⟩

end Decides

end Compile

def Value.IsText (v : Value) : Prop := ∃ s, v = .str s

theorem Value.exists_texts {vs : List Value} (h : ∀ v ∈ vs, v.IsText) :
    ∃ ss : List String, vs = ss.map .str := by
  induction vs with
  | nil => exact ⟨[], rfl⟩
  | cons v vs ih =>
    obtain ⟨s, rfl⟩ := h v (List.mem_cons_self ..)
    obtain ⟨ss, rfl⟩ := ih fun w hw => h w (List.mem_cons_of_mem _ hw)
    exact ⟨s :: ss, rfl⟩

namespace Filter

open Compile

theorem eq_str_of_operator? {key : Value} {name : String} (h : key.operator? = some name) :
    key = .str name := by
  cases key with
  | str s =>
    simp only [Value.operator?] at h
    split at h
    · exact congrArg Value.str (Option.some.inj h)
    · cases h
  | _ => cases h

section Faults

def Located.fault? (root : String) (n : Located) : Option Error :=
  if n.node.WellFormed then none else some (n.error root)

def firstFault (root : String) (ns : List Located) : Option Error :=
  ns.findSome? (Located.fault? root)

variable {root : String} {n : Located} {ns ms : List Located}

theorem Located.fault?_eq_none_iff : n.fault? root = none ↔ n.node.WellFormed := by
  unfold fault?
  split <;> simp_all

theorem Located.fault?_of_not (h : ¬n.node.WellFormed) : n.fault? root = some (n.error root) :=
  if_neg h

theorem firstFault_nil : firstFault root [] = none := rfl

theorem firstFault_cons : firstFault root (n :: ns) = (n.fault? root).or (firstFault root ns) := by
  rw [firstFault, List.findSome?_cons]
  cases n.fault? root <;> rfl

theorem firstFault_append :
    firstFault root (ns ++ ms) = (firstFault root ns).or (firstFault root ms) :=
  List.findSome?_append

theorem firstFault_eq_none_iff : firstFault root ns = none ↔ ∀ n ∈ ns, n.node.WellFormed := by
  simp only [firstFault, List.findSome?_eq_none_iff, Located.fault?_eq_none_iff]

theorem firstFault_eq_some {before after : List Located}
    (hbefore : ∀ m ∈ before, m.node.WellFormed) (hn : ¬n.node.WellFormed) :
    firstFault root (before ++ n :: after) = some (n.error root) := by
  rw [firstFault_append, firstFault_cons, firstFault_eq_none_iff.mpr hbefore,
    Located.fault?_of_not hn]
  rfl

end Faults

section Names

def operatorNames : List String := freeNames ++ listNames ++ ["$not"]

def Named : Operator → String → Bool
  | .member _, name => name ∈ listNames
  | .negation, name => name = "$not"
  | _, name => name ∈ freeNames

theorem ofName?_named : ∀ name ∈ operatorNames, (Operator.ofName? name).any (Named · name) := by
  decide

theorem ofName?_of_not_mem {name : String} (h : name ∉ operatorNames) :
    Operator.ofName? name = none := by
  simp only [operatorNames, freeNames, listNames, List.cons_append, List.nil_append, List.mem_cons,
    List.not_mem_nil, or_false, not_or] at h
  simp only [Operator.ofName?, h, if_false]

theorem named_of_ofName? {name : String} {operator : Operator}
    (h : Operator.ofName? name = some operator) : Named operator name := by
  by_cases hmem : name ∈ operatorNames
  · have hnamed := ofName?_named name hmem
    rw [h] at hnamed
    exact hnamed
  · rw [ofName?_of_not_mem hmem] at h
    cases h

theorem not_mem_of_ofName? {name : String} (h : Operator.ofName? name = none) :
    name ∉ operatorNames := by
  intro hmem
  have hnamed := ofName?_named name hmem
  rw [h] at hnamed
  cases hnamed

theorem connective_of_mem : ∀ name ∈ groupNames, (Connective.ofName? name).isSome := by decide

theorem connective_of_not_mem {name : String} (h : name ∉ groupNames) :
    Connective.ofName? name = none := by
  simp only [groupNames, List.mem_cons, List.not_mem_nil, or_false, not_or] at h
  simp only [Connective.ofName?, h, if_false]

variable {name : String} (operand : Value)

theorem takes_of_free (h : name ∈ freeNames) : takes name operand = true := by
  simp [takes, h]

theorem takes_of_list (h : name ∈ listNames) : takes name operand = operand.sequence?.isSome := by
  have hother : ∀ s ∈ listNames, s ∉ freeNames ∧ s ≠ "$not" := by decide
  simp [takes, h, hother name h]

theorem takes_not : takes "$not" operand = negatable operand := by
  have hother : "$not" ∉ freeNames ∧ "$not" ∉ listNames := by decide
  simp [takes, hother]

theorem takes_of_not_mem (h : name ∉ operatorNames) : takes name operand = false := by
  simp only [operatorNames, List.mem_append, List.mem_singleton, not_or] at h
  simp [takes, h]

end Names

/-- The text that leads to a place. -/
theorem context_append (root name : String) (path : List String) :
    (path ++ [name]).foldl step root = step (path.foldl step root) name := by
  rw [List.foldl_append]
  rfl

section Operators

variable {root : String} {scope : Scope} {field : Value} {path : List String} {name : String}
  {operand : Value}

/-- The error of an operator of a field, if there is one. -/
theorem operator_fault? (hkey : (Value.str name).operator? = some name) :
    Located.fault? root ⟨path, .operator field (.str name) operand⟩ =
      if takes name operand then none
      else some ((Node.operator field (.str name) operand).error (path.foldl step root)) := by
  have hiff : (Node.operator field (.str name) operand).WellFormed ↔ takes name operand := by
    simp [Node.WellFormed, hkey]
  simp only [Located.fault?, hiff]
  rfl

theorem operator_error_unknown (h : name ∉ operatorNames) (context : String) :
    (Node.operator field (.str name) operand).error context =
      .unsupported field (.str name) (.str context) := by
  simp only [operatorNames, List.mem_append, List.mem_singleton, not_or] at h
  simp [Node.error, Value.text, h]

theorem compared_decides (symbol : String) (v : Value) :
    Decides (compared field symbol v) none Value.IsText :=
  .of_yields (compared_yields symbol v) ⟨_, rfl⟩

theorem matchesPattern_decides (v : Value) : Decides (matchesPattern field v) none Value.IsText :=
  .of_yields (matchesPattern_yields v) ⟨_, rfl⟩

theorem containments_decides {vs : List Value} (h : ItemsTextKeyed vs) :
    Decides (containments field vs) none fun _ => True := by
  induction vs with
  | nil => exact .pure trivial
  | cons v vs ih =>
    obtain ⟨t, ht⟩ := TextKeyed.json v h.1
    exact .next (.ofExcept ht) (.next (.bindValue _) ((ih h.2).bind fun _ _ => .pure trivial))

theorem memberOf_decides {vs : List Value} (hkeys : ItemsTextKeyed vs) (hfree : ItemsFree vs)
    (m : Membership) (context : String) :
    Decides (memberOf scope field name m context vs) none Value.IsText := by
  unfold memberOf
  split
  · exact .next (.note _) (.pure ⟨_, rfl⟩)
  · rw [hfree.any_isSubquery]
    cases m with
    | containsAll => exact (containments_decides hkeys).bind fun _ _ => .pure ⟨_, rfl⟩
    | among => exact .next (.bindAll vs) (.pure ⟨_, rfl⟩)
    | outside => exact .next (.bindAll vs) (.pure ⟨_, rfl⟩)

/-- An operator that is not applied to further operators. -/
theorem applySimple_decides {operator : Operator} (hname : Operator.ofName? name = some operator)
    (hkey : (Value.str name).operator? = some name) (hkeys : TextKeyed operand)
    (hfree : SubqueryFree operand)
    (hsimple : operator = .negation → ∀ entry entries, operand ≠ .map (entry :: entries)) :
    Decides (applySimple scope field name operator (path.foldl step root) operand)
      (Located.fault? root ⟨path, .operator field (.str name) operand⟩) Value.IsText := by
  have hnamed := named_of_ofName? hname
  rw [operator_fault? hkey]
  cases operator with
  | compare c =>
    rw [takes_of_free operand (of_decide_eq_true hnamed)]
    exact compared_decides c.symbol operand
  | member m =>
    have hlist : name ∈ listNames := of_decide_eq_true hnamed
    rw [takes_of_list operand hlist]
    simp only [applySimple]
    cases hvs : operand.sequence? with
    | some vs => exact memberOf_decides (hkeys.items hvs) (hfree.items hvs) m _
    | none =>
      have herror : (Node.operator field (.str name) operand).error (path.foldl step root) =
          .malformed (.listExpected name field operand.kind) (.str (path.foldl step root)) := by
        simp [Node.error, Value.text, hlist]
      rw [herror]
      exact .throw _
  | present =>
    rw [takes_of_free operand (of_decide_eq_true hnamed)]
    exact .pure ⟨_, rfl⟩
  | size =>
    rw [takes_of_free operand (of_decide_eq_true hnamed)]
    exact .next (.bindValue operand) (.pure ⟨_, rfl⟩)
  | element =>
    rw [takes_of_free operand (of_decide_eq_true hnamed)]
    obtain ⟨t, ht⟩ := TextKeyed.json operand hkeys
    exact .next (.ofExcept ht) (.next (.bindValue _) (.pure ⟨_, rfl⟩))
  | regex =>
    rw [takes_of_free operand (of_decide_eq_true hnamed)]
    exact matchesPattern_decides operand
  | like =>
    rw [takes_of_free operand (of_decide_eq_true hnamed)]
    exact .next (.bindValue operand) (.pure ⟨_, rfl⟩)
  | negation =>
    obtain rfl : name = "$not" := of_decide_eq_true hnamed
    have herror : (Node.operator field (.str "$not") operand).error (path.foldl step root) =
        .malformed (.emptyNegation field) (.str (path.foldl step root)) := rfl
    rw [takes_not, herror]
    simp only [applySimple]
    split
    · exact (matchesPattern_decides _).map fun _ _ => ⟨_, rfl⟩
    · exact (matchesPattern_decides _).map fun _ _ => ⟨_, rfl⟩
    · rename_i hstr hpattern
      have hrefused : negatable operand = false := by
        unfold negatable
        split
        · exact absurd rfl (hstr _)
        · exact absurd rfl (hpattern _)
        · exact absurd rfl (hsimple rfl _ _)
        · rfl
      rw [hrefused]
      exact .throw _

theorem conjoined_of_isText {clauses : List Value} (h : ∀ clause ∈ clauses, clause.IsText) :
    ∃ clause, conjoined clauses = .ok clause ∧ clause.IsText := by
  match clauses with
  | [] => exact ⟨_, rfl, _, rfl⟩
  | [clause] => exact ⟨clause, rfl, h clause (List.mem_singleton_self _)⟩
  | first :: second :: rest =>
    obtain ⟨ss, hss⟩ := Value.exists_texts h
    refine ⟨.str ("(" ++ " AND ".intercalate ss ++ ")"), ?_, _, rfl⟩
    simp only [conjoined, hss, Value.join_map_str]
    rfl

theorem cons_decides {first : Compile Value} {rest : Compile (List Value)}
    {fault fault' : Option Error} (hfirst : Decides first fault Value.IsText)
    (hrest : Decides rest fault' (∀ clause ∈ ·, clause.IsText)) :
    Decides (do let clause ← first; return clause :: (← rest)) (fault.or fault')
      (∀ clause ∈ ·, clause.IsText) := by
  refine hfirst.bind fun clause hclause => hrest.last fun clauses hclauses => .pure ?_
  exact List.forall_mem_cons.mpr ⟨hclause, hclauses⟩

theorem operandNodes_of_simple (key : Value)
    (h : ∀ entry entries, operand ≠ .map (entry :: entries)) :
    operandNodes field path key operand = [] := by
  cases operand with
  | map entries =>
    cases entries with
    | nil => simp [operandNodes, operatorNodes]
    | cons entry entries => exact absurd rfl (h entry entries)
  | _ => simp only [operandNodes]

theorem operandNodes_of_ne {key : Value} (h : key.operator? ≠ some "$not") :
    operandNodes field path key operand = [] := by
  cases operand with
  | map entries => rw [operandNodes, if_neg h]
  | _ => simp only [operandNodes]

/-- The operators of a field are decided by their nodes, in order. -/
theorem operators_decide (hs : scope.Plain) :
    (∀ context entries, ∀ path, context = path.foldl step root → EntriesTextKeyed entries →
      EntriesFree entries →
      Decides (operatorClauses scope field context entries)
        (firstFault root (operatorNodes field path entries)) (∀ clause ∈ ·, clause.IsText)) ∧
    ∀ name context operand, ∀ path, context = path.foldl step root →
      (Value.str name).operator? = some name → TextKeyed operand → SubqueryFree operand →
      Decides (applyOperator scope field name context operand)
        ((Located.fault? root ⟨path, .operator field (.str name) operand⟩).or
          (firstFault root (operandNodes field path (.str name) operand))) Value.IsText := by
  apply operatorClauses.mutual_induct scope field
  case case1 => -- a handler
    intro operand name context handler hfind
    exact absurd (hfind.symm.trans (hs name)) (Option.some_ne_none handler)
  case case2 => -- a sub-query
    intro name context hfind ref path hpath hkey hkeys hfree
    exact hfree.elim
  case case3 => -- operators under an unknown name
    rintro name _ hfind entry entries hname path rfl hkey hkeys hfree
    have hunknown := not_mem_of_ofName? hname
    rw [applyOperator.eq_def, hfind, operator_fault? hkey, takes_of_not_mem _ hunknown,
      operator_error_unknown hunknown]
    simp only [hname]
    exact .throw _
  case case4 => -- operators that are negated
    rintro name _ hfind entry entries hname ih path rfl hkey hkeys hfree
    obtain rfl : name = "$not" := of_decide_eq_true (named_of_ofName? hname)
    rw [applyOperator.eq_def, hfind, operator_fault? hkey, takes_not, operandNodes, if_pos hkey]
    simp only [hname]
    refine (ih _ (context_append ..).symm hkeys hfree).last fun clauses hclauses => ?_
    obtain ⟨clause, hclause, -⟩ := conjoined_of_isText hclauses
    exact (Decides.ofExcept hclause rfl).map fun _ _ => ⟨_, rfl⟩
  case case5 => -- a map under any other operator
    rintro name _ hfind entry entries operator hop hname path rfl hkey hkeys hfree
    have hne : (Value.str name).operator? ≠ some "$not" := by
      intro h
      obtain rfl := Option.some.inj (hkey.symm.trans h)
      exact hop (Option.some.inj (hname.symm.trans rfl))
    rw [applyOperator.eq_def, hfind, operandNodes_of_ne hne, firstFault_nil, Option.or_none]
    simp only [hname]
    exact applySimple_decides hname hkey hkeys hfree fun h => (hop h).elim
  case case6 => -- any other operand, under an unknown name
    rintro name _ hfind operand hsub hmap hname path rfl hkey hkeys hfree
    have hunknown := not_mem_of_ofName? hname
    rw [applyOperator.eq_def, hfind, operator_fault? hkey, takes_of_not_mem _ hunknown,
      operator_error_unknown hunknown]
    simp only [hname]
    exact .throw _
  case case7 => -- any other operand
    rintro name _ hfind operand hsub hmap operator hname path rfl hkey hkeys hfree
    rw [applyOperator.eq_def, hfind, operandNodes_of_simple _ hmap, firstFault_nil, Option.or_none]
    simp only [hname]
    exact applySimple_decides hname hkey hkeys hfree fun _ => hmap
  case case8 => -- the end of the operators
    rintro _ path rfl - -
    exact .pure fun _ hclause => absurd hclause List.not_mem_nil
  case case9 => -- an operator before others
    rintro _ key operand rest operator hkey hrest hfirst path rfl hkeys hfree
    obtain rfl := eq_str_of_operator? hkey
    rw [operatorClauses.eq_def, operatorNodes, firstFault_cons, firstFault_append, ← Option.or_assoc]
    simp only [hkey]
    exact cons_decides (hfirst path rfl hkey hkeys.2.1 hfree.1) (hrest path rfl hkeys.2.2 hfree.2)
  case case10 => -- a key without a mark before others
    rintro _ key operand rest hkey hrest path rfl hkeys hfree
    have hwell : (Node.operator field key operand).WellFormed := by simp [Node.WellFormed, hkey]
    have hne : key.operator? ≠ some "$not" := by simp [hkey]
    rw [operatorClauses.eq_def, operatorNodes, firstFault_cons, operandNodes_of_ne hne,
      Located.fault?_eq_none_iff.mpr hwell]
    simp only [hkey]
    exact cons_decides (compared_decides "=" operand) (hrest path rfl hkeys.2.2 hfree.2)

end Operators

section Trees

variable {root : String} {scope : Scope}

/-- The children of a group are refused for the first that is no map. -/
theorem checkChildren_eq (name context : String) (children : List Value) :
    Entry.checkChildren name context children =
      match children.find? (·.entries?.isNone) with
      | none => .ok ()
      | some child => .error (.malformed (.groupMember name child.kind) (.str context)) := by
  induction children with
  | nil => rfl
  | cons child children ih =>
    cases child with
    | map es => exact ih
    | _ => rfl

theorem entry_fault? {name : String} (hkey : (Value.str name).operator? = some name)
    (path : List String) (value : Value) :
    Located.fault? root ⟨path, .entry (.str name) value⟩ =
      if name ∈ groupNames ∧ isGroup value then none
      else some ((Node.entry (.str name) value).error (path.foldl step root)) := by
  have hiff : (Node.entry (.str name) value).WellFormed ↔ name ∈ groupNames ∧ isGroup value := by
    simp [Node.WellFormed, hkey]
  simp only [Located.fault?, hiff]
  rfl

theorem entry_fault?_of_not_mem {name : String} (hkey : (Value.str name).operator? = some name)
    (hname : name ∉ groupNames) {path : List String} {value : Value} :
    Located.fault? root ⟨path, .entry (.str name) value⟩ =
      some (.unsupported (.str "") (.str name) (.str (path.foldl step root))) := by
  rw [entry_fault? hkey, if_neg fun h => hname h.1]
  simp [Node.error, Value.text, hname]

theorem entry_fault?_of_single {name : String} (hkey : (Value.str name).operator? = some name)
    (hname : name ∈ groupNames) {path : List String} {value : Value}
    (hvalue : value.sequence? = none) :
    Located.fault? root ⟨path, .entry (.str name) value⟩ =
      some (Entry.groupError name (path.foldl step root) value) := by
  rw [entry_fault? hkey, if_neg (by simp [isGroup, hvalue])]
  simp [Node.error, Node.groupFault, Entry.groupError, Value.text, hname, hvalue]

/-- A group is checked before its filters are compiled. -/
theorem group_decides {name : String} {value : Value} {children : List Value} {path : List String}
    {fault : Option Error} {body : Compile Value} (hkey : (Value.str name).operator? = some name)
    (hname : name ∈ groupNames) (hvalue : value.sequence? = some children)
    (hbody : (∀ child ∈ children, child.entries?.isSome) → Decides body fault Value.IsText) :
    Decides (do Entry.checkChildren name (path.foldl step root) children; body)
      ((Located.fault? root ⟨path, .entry (.str name) value⟩).or fault) Value.IsText := by
  have hgroup : isGroup value = children.all (·.entries?.isSome) := by simp [isGroup, hvalue]
  rw [entry_fault? hkey, checkChildren_eq, hgroup]
  cases hfind : children.find? (·.entries?.isNone) with
  | none =>
    have hmaps : ∀ child ∈ children, child.entries?.isSome := by
      simpa [Option.isSome_iff_ne_none] using hfind
    rw [if_pos ⟨hname, List.all_eq_true.mpr hmaps⟩]
    exact hbody hmaps
  | some child =>
    have hnot : ¬(name ∈ groupNames ∧ children.all (·.entries?.isSome) = true) := by
      rintro ⟨-, hmaps⟩
      have hsome := List.all_eq_true.mp hmaps child (List.mem_of_find?_eq_some hfind)
      have hnone := List.find?_some hfind
      simp_all
    have herror : (Node.entry (.str name) value).error (path.foldl step root) =
        .malformed (.groupMember name child.kind) (.str (path.foldl step root)) := by
      simp [Node.error, Node.groupFault, Value.text, hname, hvalue, hfind]
    rw [if_neg hnot, herror]
    exact .throw _

theorem condition_decides (context : String) {clauses : List Value}
    (h : ∀ clause ∈ clauses, clause.IsText) :
    Decides (condition context clauses) none fun _ => True := by
  obtain ⟨ss, rfl⟩ := Value.exists_texts h
  have hrows : ss.map Value.str = (Fragments.texts ss).map fun fs => .str fs.sql := by
    simp [Fragments.texts, Fragments.sql, Fragment.sql]
  rw [hrows]
  exact .of_yields (condition_yields context _) trivial

/-- A filter is decided by its nodes, in order: one case for each shape of a filter and of an
entry, and for the ends of the lists. -/
theorem compile_decides (hs : scope.Plain) :
    (∀ context tree, ∀ path, context = path.foldl step root → TextKeyed tree → SubqueryFree tree →
      Decides (compile scope context tree)
        ((Located.fault? root ⟨path, .tree tree⟩).or (firstFault root (treeNodes path tree)))
        fun _ => True) ∧
    (∀ context entries, ∀ path, context = path.foldl step root → EntriesTextKeyed entries →
      EntriesFree entries →
      Decides (entryClauses scope context entries) (firstFault root (entriesNodes path entries))
        (∀ clause ∈ ·, clause.IsText)) ∧
    (∀ context key value, ∀ path, context = path.foldl step root → TextKeyed value →
      SubqueryFree value →
      Decides (entryClause scope context key value)
        ((Located.fault? root ⟨path, .entry key value⟩).or
          (firstFault root (entryNodes path key value))) Value.IsText) ∧
    ∀ context operator index children, ∀ path, context = path.foldl step root →
      (∀ child ∈ children, child.entries?.isSome) → ItemsTextKeyed children → ItemsFree children →
      Decides (childClauses scope context operator index children)
        (firstFault root (childrenNodes path operator index children)) fun _ => True := by
  apply compile.mutual_induct
  case case1 => -- no filter
    rintro _ path rfl - -
    rw [compile.eq_1]
    exact condition_decides _ fun _ hclause => absurd hclause List.not_mem_nil
  case case2 => -- a map
    rintro _ entries ih path rfl hkeys hfree
    rw [compile.eq_2, treeNodes]
    exact (ih path rfl hkeys hfree).last fun clauses hclauses => condition_decides _ hclauses
  case case3 => -- what is no filter
    rintro _ v hnull hmap path rfl - -
    have hill : ¬(Node.tree v).WellFormed := by
      cases v with
      | null => exact (hnull rfl).elim
      | map es => exact (hmap es rfl).elim
      | _ =>
        intro hwell
        cases hwell
    rw [compile.eq_3 scope _ v hnull hmap, Located.fault?_of_not hill]
    exact .throw _
  case case4 => -- an entry with a marked key
    rintro value _ key name hkey ih path rfl hkeys hfree
    obtain rfl := eq_str_of_operator? hkey
    rw [entryClause.eq_def, entryNodes.eq_def]
    simp only [hkey]
    by_cases hname : name ∈ groupNames
    · obtain ⟨c, hc⟩ := Option.isSome_iff_exists.mp (connective_of_mem name hname)
      have hconnective : Entry.connective name (path.foldl step root) = .ok c := by
        simp only [Entry.connective, hc]
      refine .next (.ofExcept hconnective) ?_
      cases value with
      | list children =>
        exact group_decides hkey hname rfl fun hmaps =>
          (ih path rfl hmaps hkeys hfree).last fun _ _ => .pure ⟨_, rfl⟩
      | tuple children =>
        exact group_decides hkey hname rfl fun hmaps =>
          (ih path rfl hmaps hkeys hfree).last fun _ _ => .pure ⟨_, rfl⟩
      | _ =>
        rw [entry_fault?_of_single hkey hname rfl]
        exact .throw _
    · have hconnective : Entry.connective name (path.foldl step root) =
          .error (.unsupported (.str "") (.str name) (.str (path.foldl step root))) := by
        simp only [Entry.connective, connective_of_not_mem hname]
      rw [hconnective, entry_fault?_of_not_mem hkey hname]
      exact .throw _
  case case5 => -- a field with a sub-query
    intro context key hkey ref path hpath hkeys hfree
    exact hfree.elim
  case case6 => -- a field with operators
    rintro _ key hkey entries path rfl hkeys hfree
    have hwell : (Node.entry key (.map entries)).WellFormed := by simp [Node.WellFormed, hkey]
    rw [entryClause.eq_def, entryNodes.eq_def, Located.fault?_eq_none_iff.mpr hwell]
    simp only [hkey]
    refine ((operators_decide hs).1 _ entries _ (context_append ..).symm hkeys hfree).last ?_
    intro clauses hclauses
    obtain ⟨clause, hclause, htext⟩ := conjoined_of_isText hclauses
    exact .ofExcept hclause htext
  case case7 => -- a field with any other value
    rintro _ key hkey v hsub hmap path rfl hkeys hfree
    have hwell : (Node.entry key v).WellFormed := by simp [Node.WellFormed, hkey]
    rw [entryClause.eq_def, entryNodes.eq_def, Located.fault?_eq_none_iff.mpr hwell]
    simp only [hkey]
    exact compared_decides "=" v
  case case8 => -- the end of a group
    rintro _ operator index path rfl - - -
    rw [childClauses, childrenNodes]
    exact .pure trivial
  case case9 => -- a filter of a group
    rintro _ operator index child rest hchild hrest path rfl hmaps hkeys hfree
    obtain ⟨hmap, hmaps⟩ := List.forall_mem_cons.mp hmaps
    have hwell : (Node.tree child).WellFormed := by
      cases child with
      | map es => rfl
      | _ => cases hmap
    have hfirst := hchild _ (context_append ..).symm hkeys.1 hfree.1
    rw [Located.fault?_eq_none_iff.mpr hwell, Option.none_or] at hfirst
    rw [childClauses, childrenNodes, firstFault_append]
    exact hfirst.bind fun _ _ =>
      (hrest path rfl hmaps hkeys.2 hfree.2).last fun _ _ => .pure trivial
  case case10 => -- the end of a map
    rintro _ path rfl - -
    rw [entryClauses, entriesNodes]
    exact .pure fun _ hclause => absurd hclause List.not_mem_nil
  case case11 => -- an entry of a map
    rintro _ key value rest hentry hrest path rfl hkeys hfree
    rw [entryClauses, entriesNodes, firstFault_cons, firstFault_append, ← Option.or_assoc]
    refine (hentry path rfl hkeys.2.1 hfree.1).bind fun clause hclause => ?_
    refine (hrest path rfl hkeys.2.2 hfree.2).last fun clauses hclauses => .pure ?_
    split
    · exact List.forall_mem_cons.mpr ⟨hclause, hclauses⟩
    · exact hclauses

/-- The language of filters: a filter is compiled exactly if all its nodes are well formed, and
otherwise fails with the error of the first that is not. -/
theorem compiled_iff_wellFormed (hs : scope.Plain) {tree : Value} (hkeys : TextKeyed tree)
    (hfree : SubqueryFree tree) (root : String) :
    (∀ d, (∃ text d', compile scope root tree d = .ok text d') ↔
      ∀ n ∈ nodes tree, n.node.WellFormed) ∧
    ∀ before n after, nodes tree = before ++ n :: after → (∀ m ∈ before, m.node.WellFormed) →
      ¬n.node.WellFormed → ∀ d, ∃ d', compile scope root tree d = .error (n.error root) d' := by
  have hdecides : Decides (compile scope root tree) (firstFault root (nodes tree)) fun _ => True := by
    rw [nodes, firstFault_cons]
    exact (compile_decides hs).1 root tree [] rfl hkeys hfree
  constructor
  · intro d
    rw [hdecides.returns_iff d, firstFault_eq_none_iff]
  · intro before n after hnodes hbefore hn d
    rw [hnodes, firstFault_eq_some hbefore hn] at hdecides
    exact hdecides.fails d

/-- Two nodes are not well formed: `$in` takes no number, and `$near` joins no filters. -/
def strayFilter : Value :=
  .map [(.str "a", .int 1), (.str "$or", .list
    [.map [(.str "b", .map [(.str "$not", .map [(.str "$in", .int 5)])])],
     .map [(.str "$near", .int 2)]])]

/-- The error names the place of the first of them. -/
theorem strayFilter_refused : ∃ d', compile ⟨{}, fun _ => throw .circular⟩ "root" strayFilter {} =
    .error (.malformed (.listExpected "$in" (.str "b") "int") (.str "root->$or[0]->b->$not")) d' := by
  have hnodes : nodes strayFilter = (nodes strayFilter).take 5 ++
      ⟨["$or[0]", "b", "$not"], .operator (.str "b") (.str "$in") (.int 5)⟩ ::
        [⟨["$or[1]"], .entry (.str "$near") (.int 2)⟩] := rfl
  have hkeys : TextKeyed strayFilter := by
    simp [strayFilter, TextKeyed, EntriesTextKeyed, ItemsTextKeyed]
  have hfree : SubqueryFree strayFilter := by
    simp [strayFilter, SubqueryFree, EntriesFree, ItemsFree]
  exact (compiled_iff_wellFormed (fun _ => rfl) hkeys hfree "root").2 _ _ _ hnodes (by decide)
    (by decide) {}

end Trees

end Filter

end BoundQuery
