import BoundQuery.Proofs.SideBySide

/-! The operators that a filter applies to its fields. The handlers of other operators have no part
in how the filter is compiled. -/
namespace BoundQuery

namespace Filter

mutual

/-- The operators applied to one field; only below a negation there are further ones. -/
def operatorsApplied : List (Value × Value) → List String
  | [] => []
  | (key, operand) :: rest =>
    (match key.operator? with
      | some name => name :: operandApplied name operand
      | none => []) ++ operatorsApplied rest

def operandApplied (name : String) : Value → List String
  | .map entries =>
    match Operator.ofName? name with
    | some .negation => operatorsApplied entries
    | _ => []
  | _ => []

end

mutual

def applied : Value → List String
  | .map entries => entriesApplied entries
  | _ => []

def entriesApplied : List (Value × Value) → List String
  | [] => []
  | (key, value) :: rest => entryApplied key value ++ entriesApplied rest

def entryApplied (key : Value) (value : Value) : List String :=
  match key.operator? with
  | some _ =>
    match value with
    | .list children => childrenApplied children
    | .tuple children => childrenApplied children
    | _ => []
  | none =>
    match value with
    | .map entries => operatorsApplied entries
    | _ => []

def childrenApplied : List Value → List String
  | [] => []
  | child :: rest => applied child ++ childrenApplied rest

end

def Agree (r r' : Registry) (names : List String) : Prop :=
  ∀ name ∈ names, r.find? name = r'.find? name

theorem agree_append {r r' : Registry} {names more : List String} :
    Agree r r' (names ++ more) ↔ Agree r r' names ∧ Agree r r' more := List.forall_mem_append

section Demands

variable {field f operand : Value} {name : String}

theorem not_mem_itemDemands (vs : List Value) : .operator f name operand ∉ itemDemands vs := by
  fun_induction itemDemands vs with
  | case1 => simp
  | case2 ref vs ih => simpa using ih
  | case3 v vs _ ih => exact ih

theorem operatorsDemands_applied :
    (∀ entries, .operator f name operand ∈ operatorsDemands field entries →
      f = field ∧ name ∈ operatorsApplied entries) ∧
    ∀ marked v, .operator f name operand ∈ operandDemands field marked v →
      f = field ∧ name ∈ operandApplied marked v := by
  apply operatorsDemands.mutual_induct
  case case1 => -- a sub-query
    intro marked ref h
    simp [operandDemands] at h
  case case2 => -- a list
    intro marked items h
    rw [operandDemands] at h
    exact absurd h (not_mem_itemDemands items)
  case case3 => -- a tuple
    intro marked items h
    rw [operandDemands] at h
    exact absurd h (not_mem_itemDemands items)
  case case4 => -- operators that are negated
    intro marked entries hname ih h
    simp only [operandDemands, hname] at h
    simp only [operandApplied, hname]
    exact ih h
  case case5 => -- a map under any other operator
    intro marked entries hname h
    rw [operandDemands] at h
    split at h
    · exact absurd ‹_› hname
    · cases h
  case case6 => -- any other operand
    intro v marked hsub hlist htuple hmap h
    rw [operandDemands.eq_5 field marked v hsub hlist htuple hmap] at h
    cases h
  case case7 => -- the end of the operators
    intro h
    rw [operatorsDemands] at h
    cases h
  case case8 => -- a key before others
    intro key v rest hoperand hrest h
    rw [operatorsDemands, List.mem_append] at h
    rw [operatorsApplied, List.mem_append]
    rcases h with h | h
    · cases hkey : key.operator? with
      | none => simp [hkey] at h
      | some marked =>
        simp only [hkey, List.mem_cons] at h ⊢
        rcases h with h | h
        · cases h
          exact ⟨rfl, .inl (.inl rfl)⟩
        · obtain ⟨hfield, hname⟩ := hoperand marked h
          exact ⟨hfield, .inl (.inr hname)⟩
    · obtain ⟨hfield, hname⟩ := hrest h
      exact ⟨hfield, .inr hname⟩

/-- Handlers are asked for only for the operators that the filter applies, and for its fields. -/
theorem demands_applied {p : String → Prop} :
    (∀ tree, .operator f name operand ∈ demands tree →
      name ∈ applied tree ∧ (Names p tree → p f.text)) ∧
    (∀ entries, .operator f name operand ∈ entriesDemands entries →
      name ∈ entriesApplied entries ∧ (EntriesNames p entries → p f.text)) ∧
    (∀ key value, .operator f name operand ∈ entryDemands key value →
      name ∈ entryApplied key value ∧ (EntryNames p key value → p f.text)) ∧
    ∀ children, .operator f name operand ∈ childrenDemands children →
      name ∈ childrenApplied children ∧ (ChildrenNames p children → p f.text) := by
  apply applied.mutual_induct
  case case1 => -- a map
    intro entries ih h
    rw [demands] at h
    rw [applied, Names]
    exact ih h
  case case2 => -- no map
    intro v hmap h
    rw [demands.eq_2 v hmap] at h
    cases h
  case case3 => -- a group in a list
    intro key marked hkey children ih h
    simp only [entryDemands.eq_def, hkey] at h
    simp only [entryApplied.eq_def, EntryNames.eq_def, hkey]
    exact ih h
  case case4 => -- a group in a tuple
    intro key marked hkey children ih h
    simp only [entryDemands.eq_def, hkey] at h
    simp only [entryApplied.eq_def, EntryNames.eq_def, hkey]
    exact ih h
  case case5 => -- a marked key without a group
    intro value key marked hkey hlist htuple h
    simp only [entryDemands.eq_def, hkey] at h
    cases h
  case case6 => -- a field with operators
    intro key hkey entries h
    simp only [entryDemands.eq_def, hkey] at h
    obtain ⟨rfl, hname⟩ := operatorsDemands_applied.1 entries h
    simp only [entryApplied.eq_def, hkey]
    exact ⟨hname, fun hnames => hnames.text hkey⟩
  case case7 => -- a field with any other value
    intro value key hkey hmap h
    simp only [entryDemands.eq_def, hkey] at h
    split at h
    · simp at h
    · exact absurd rfl (hmap _)
    · cases h
  case case8 => -- the end of a group
    intro h
    rw [childrenDemands] at h
    cases h
  case case9 => -- a filter of a group
    intro child rest hchild hrest h
    rw [childrenDemands, List.mem_append] at h
    rw [childrenApplied, List.mem_append, ChildrenNames]
    rcases h with h | h
    · exact ⟨.inl (hchild h).1, fun hnames => (hchild h).2 hnames.1⟩
    · exact ⟨.inr (hrest h).1, fun hnames => (hrest h).2 hnames.2⟩
  case case10 => -- the end of a map
    intro h
    rw [entriesDemands] at h
    cases h
  case case11 => -- an entry of a map
    intro key value rest hentry hrest h
    rw [entriesDemands, List.mem_append] at h
    rw [entriesApplied, List.mem_append, EntriesNames]
    rcases h with h | h
    · exact ⟨.inl (hentry h).1, fun hnames => (hentry h).2 hnames.1⟩
    · exact ⟨.inr (hrest h).1, fun hnames => (hrest h).2 hnames.2⟩

end Demands

end Filter

def Scope.bare (scope : Scope) : Scope := { scope with registry := {} }

/-- No operator that the filter applies has a handler. -/
def Filter.Unplugged (scope : Scope) (tree : Value) : Prop :=
  ∀ name ∈ applied tree, scope.registry.find? name = none

theorem Filter.Unplugged.agreeOn {scope : Scope} {tree : Value} (h : Unplugged scope tree) :
    ∀ demand ∈ demands tree, scope.AgreeOn scope.bare demand := by
  intro demand hdemand
  cases demand with
  | operator field name operand =>
    have hnone := h name ((demands_applied (p := fun _ => True)).1 tree hdemand).1
    simp only [Scope.AgreeOn, hnone]
    rfl
  | subquery ref => rfl

theorem Filter.Unplugged.compile_bare {scope : Scope} {tree : Value} (h : Unplugged scope tree)
    (context : String) : compile scope context tree = compile scope.bare context tree :=
  compile_congr h.agreeOn context

/-- Except for pipelines, whose stages hold filters of their own. -/
theorem Builder.compile_bare {scope : Scope} {b : Builder} (hkind : b.kind ≠ .aggregate)
    (h : ∀ tree, b.filter? = some tree → Filter.Unplugged scope tree) :
    b.compile scope = b.compile scope.bare := by
  refine compile_congr ?_
  cases b with
  | select s => exact (h _ rfl).agreeOn
  | update u => exact (h _ rfl).agreeOn
  | delete d => exact (h _ rfl).agreeOn
  | insert i => exact nofun
  | aggregate a => exact absurd rfl hkind

end BoundQuery
