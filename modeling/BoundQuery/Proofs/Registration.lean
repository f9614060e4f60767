import BoundQuery.Proofs.Applied
import BoundQuery.Proofs.Outcome
import BoundQuery.Registry.Stock

/-! What registering a handler changes. In a registry the handler accepted first for an operator
stays in force, and what is refused leaves no trace. A filter is compiled as before unless it
applies the operator, itself or in a sub-query that takes its handlers from the registry. -/
namespace BoundQuery

theorem Value.isMarked_of_operator? {key : Value} {name : String} (h : key.operator? = some name) :
    Text.isMarked name := by
  cases key with
  | str s =>
    by_cases hmarked : Text.isMarked s
    · have hname : s = name := by simpa [operator?, hmarked] using h
      exact hname ▸ hmarked
    · simp [operator?, hmarked] at h
  | _ => cases h

namespace Filter

variable {name : String}

theorem operatorsApplied_marked :
    (∀ entries, name ∈ operatorsApplied entries → Text.isMarked name) ∧
    ∀ marked v, name ∈ operandApplied marked v → Text.isMarked name := by
  apply operatorsApplied.mutual_induct
  case case1 => -- operators that are negated
    intro marked entries hnegation ih h
    simp only [operandApplied, hnegation] at h
    exact ih h
  case case2 => -- a map under any other operator
    intro marked entries hother h
    rw [operandApplied] at h
    split at h
    · exact absurd ‹_› hother
    · cases h
  case case3 => -- any other operand
    intro v marked hmap h
    rw [operandApplied.eq_2 marked v hmap] at h
    cases h
  case case4 => -- the end of the operators
    intro h
    rw [operatorsApplied] at h
    cases h
  case case5 => -- a key before others
    intro key operand rest hoperand hrest h
    rw [operatorsApplied, List.mem_append] at h
    rcases h with h | h
    · cases hkey : key.operator? with
      | none => simp [hkey] at h
      | some marked =>
        simp only [hkey, List.mem_cons] at h
        rcases h with rfl | h
        · exact Value.isMarked_of_operator? hkey
        · exact hoperand marked h
    · exact hrest h

/-- What a filter applies has the mark of operators. -/
theorem applied_marked :
    (∀ tree, name ∈ applied tree → Text.isMarked name) ∧
    (∀ entries, name ∈ entriesApplied entries → Text.isMarked name) ∧
    (∀ key value, name ∈ entryApplied key value → Text.isMarked name) ∧
    ∀ children, name ∈ childrenApplied children → Text.isMarked name := by
  apply applied.mutual_induct
  case case1 => -- a map
    intro entries ih h
    rw [applied] at h
    exact ih h
  case case2 => -- no map
    intro v hmap h
    rw [applied.eq_2 v hmap] at h
    cases h
  case case3 => -- a group in a list
    intro key marked hkey children ih h
    simp only [entryApplied.eq_def, hkey] at h
    exact ih h
  case case4 => -- a group in a tuple
    intro key marked hkey children ih h
    simp only [entryApplied.eq_def, hkey] at h
    exact ih h
  case case5 => -- a marked key without a group
    intro value key marked hkey hlist htuple h
    simp only [entryApplied.eq_def, hkey] at h
    cases h
  case case6 => -- a field with operators
    intro key hkey entries h
    simp only [entryApplied.eq_def, hkey] at h
    exact operatorsApplied_marked.1 entries h
  case case7 => -- a field with any other value
    intro value key hkey hmap h
    simp only [entryApplied.eq_def, hkey] at h
    cases h
  case case8 => -- the end of a group
    intro h
    rw [childrenApplied] at h
    cases h
  case case9 => -- a filter of a group
    intro child rest hchild hrest h
    rw [childrenApplied, List.mem_append] at h
    exact h.elim hchild hrest
  case case10 => -- the end of a map
    intro h
    rw [entriesApplied] at h
    cases h
  case case11 => -- an entry of a map
    intro key value rest hentry hrest h
    rw [entriesApplied, List.mem_append] at h
    exact h.elim hentry hrest

end Filter

def Stage.applied : Stage → List String
  | .filter tree => Filter.applied tree.toValue
  | .having tree => Filter.applied tree.toValue
  | _ => []

def Builder.applied : Builder → List String
  | select s => Filter.applied s.filter.toTree
  | update u => Filter.applied u.filter.toTree
  | delete d => Filter.applied d.filter.toTree
  | insert _ => []
  | aggregate a => a.stages.flatMap Stage.applied

section Demands

variable {field operand : Value} {name : String}

theorem Filter.mem_applied {tree : Value} (h : .operator field name operand ∈ demands tree) :
    name ∈ applied tree :=
  ((demands_applied (p := fun _ => True)).1 tree h).1

theorem Stage.mem_applied {stage : Stage} (h : .operator field name operand ∈ stage.demands) :
    name ∈ stage.applied := by
  cases stage with
  | filter tree => exact Filter.mem_applied h
  | having tree => exact Filter.mem_applied h
  | _ => cases h

theorem Builder.mem_applied {b : Builder} (h : .operator field name operand ∈ b.demands) :
    name ∈ b.applied := by
  cases b with
  | select s => exact Filter.mem_applied h
  | update u => exact Filter.mem_applied h
  | delete d => exact Filter.mem_applied h
  | insert i => cases h
  | aggregate a =>
    obtain ⟨stage, hstage, hdemand⟩ := List.mem_flatMap.mp h
    exact List.mem_flatMap.mpr ⟨stage, hstage, Stage.mem_applied hdemand⟩

theorem Builder.applied_marked {b : Builder} (h : name ∈ b.applied) : Text.isMarked name := by
  cases b with
  | select s => exact Filter.applied_marked.1 _ h
  | update u => exact Filter.applied_marked.1 _ h
  | delete d => exact Filter.applied_marked.1 _ h
  | insert i => cases h
  | aggregate a =>
    obtain ⟨stage, hstage, hname⟩ := List.mem_flatMap.mp h
    cases stage with
    | filter tree => exact Filter.applied_marked.1 _ hname
    | having tree => exact Filter.applied_marked.1 _ hname
    | _ => cases hname

end Demands

namespace Catalogue

variable (c : Catalogue)

def withRegistry (id : RegistryId) (r : Registry) : Catalogue :=
  { c with registries := c.registries.set id r }

/-- The sub-query takes its handlers from the registry, and applies the operator. -/
def Applies (id : RegistryId) (operator : String) (subquery : Nat) : Prop :=
  ∃ source b, c.targets[subquery]? = some (.source source) ∧
    c.sources[source]? = some (.builder b) ∧ b.registry = id ∧ operator ∈ b.applied

/-- The filter, with its handlers from the registry `own`, applies the operator with the handler
from the registry `id`: in its own operator maps, or in a sub-query however deep. -/
def Consults (own id : RegistryId) (operator : String) (tree : Value) : Prop :=
  (own = id ∧ operator ∈ Filter.applied tree) ∨
    ∃ ref inner, .subquery ref ∈ Filter.demands tree ∧ c.Within inner ref.id ∧
      c.Applies id operator inner

variable {c} {own id : RegistryId} {r : Registry} {operator : String} {tree : Value}

theorem Consults.marked (h : c.Consults own id operator tree) : Text.isMarked operator := by
  rcases h with ⟨-, happlied⟩ | ⟨ref, inner, -, -, source, b, -, -, -, happlied⟩
  · exact Filter.applied_marked.1 tree happlied
  · exact Builder.applied_marked happlied

theorem registry_withRegistry_of_ne (h : own ≠ id) :
    (c.withRegistry id r).registry own = c.registry own := by
  simp only [registry, withRegistry, List.getElem?_set_ne h.symm]

theorem registry_withRegistry_self (h : id < c.registries.length) :
    (c.withRegistry id r).registry id = r := by
  simp only [registry, withRegistry, List.getElem?_set_self h, Option.getD_some]

/-- Where there is no such registry, none is put in its place. -/
theorem registry_withRegistry_of_le (h : c.registries.length ≤ id) :
    (c.withRegistry id r).registry own = c.registry own := by
  simp only [registry, withRegistry, List.set_eq_of_length_le h]

theorem find?_withRegistry (h : own = id → r.find? operator = (c.registry id).find? operator) :
    ((c.withRegistry id r).registry own).find? operator = (c.registry own).find? operator := by
  by_cases hown : own = id
  · subst hown
    rcases Nat.lt_or_ge own c.registries.length with hlt | hge
    · rw [registry_withRegistry_self hlt, h rfl]
    · rw [registry_withRegistry_of_le hge]
  · rw [registry_withRegistry_of_ne hown]

theorem compileSource_withRegistry {embed embed' : Nat → Work Statement} {source : Nat}
    (h : ∀ b operator, c.sources[source]? = some (.builder b) → b.registry = id →
      operator ∈ b.applied → r.find? operator = (c.registry id).find? operator)
    (hembed : ∀ inner, c.Asks source inner → embed' inner = embed inner) :
    (c.withRegistry id r).compileSource embed' source = c.compileSource embed source := by
  have hsources : (c.withRegistry id r).sources[source]? = c.sources[source]? := rfl
  unfold compileSource
  rw [hsources]
  cases hsource : c.sources[source]? with
  | none => rfl
  | some given =>
    cases given with
    | fixed s => rfl
    | builder b =>
      refine Builder.compile_congr fun demand hdemand => ?_
      cases demand with
      | operator field name operand =>
        have hfind := find?_withRegistry fun hown =>
          h b name hsource hown (Builder.mem_applied hdemand)
        simp only [Scope.AgreeOn, hfind]
      | subquery ref => exact hembed ref.id ⟨b, ref, hsource, hdemand, rfl⟩

/-- A sub-query is compiled alike with another registry that has the same handlers for all that it
and the sub-queries in it apply. -/
theorem embed_withRegistry {subquery : Nat}
    (h : ∀ inner operator, c.Within inner subquery → c.Applies id operator inner →
      r.find? operator = (c.registry id).find? operator) (n : Nat) :
    (c.withRegistry id r).embed n subquery = c.embed n subquery := by
  induction n generalizing subquery with
  | zero => rfl
  | succ n ih =>
    have hinner : ∀ inner, c.Nests subquery inner →
        (c.withRegistry id r).embed n inner = c.embed n inner := by
      intro inner hnests
      exact ih fun deeper operator hwithin => h deeper operator (.head hnests hwithin)
    rw [embed_succ, embed_succ]
    cases htarget : c.targets[subquery]? with
    | none => rw [nested_none htarget, nested_none (c := c.withRegistry id r) htarget]
    | some target =>
      cases target with
      | source source =>
        have hsource : (c.withRegistry id r).compileSource ((c.withRegistry id r).embed n) source =
            c.compileSource (c.embed n) source := by
          refine compileSource_withRegistry (fun b operator hb hown happlied => ?_) fun inner hasks => ?_
          · exact h subquery operator .refl ⟨source, b, htarget, hb, hown, happlied⟩
          · exact hinner inner (.inl ⟨source, htarget, hasks⟩)
        rw [nested_source htarget, nested_source (c := c.withRegistry id r) htarget, hsource]
      | subquery inner =>
        have hsame := hinner inner (.inr htarget)
        rw [nested_subquery htarget, nested_subquery (c := c.withRegistry id r) htarget, remembered,
          remembered, hsame]

/-- A filter is compiled alike with another registry that has the same handlers for all that it
takes from there. -/
theorem compile_withRegistry (h : ∀ operator, c.Consults own id operator tree →
      r.find? operator = (c.registry id).find? operator) (context : String) :
    Filter.compile ((c.withRegistry id r).scope own) context tree =
      Filter.compile (c.scope own) context tree := by
  refine Filter.compile_congr (fun demand hdemand => ?_) context
  cases demand with
  | operator field name operand =>
    have hfind := find?_withRegistry fun hown => h name (.inl ⟨hown, Filter.mem_applied hdemand⟩)
    simp only [Scope.AgreeOn, scope, hfind]
  | subquery ref =>
    refine embed_withRegistry (fun inner operator hwithin happlies => ?_) c.depth
    exact h operator (.inr ⟨ref, inner, hdemand, hwithin, happlies⟩)

/-- A handler that is registered last changes nothing for filters that do not ask for it, or find
another one first. -/
theorem compile_register {handler : Handler}
    (h : c.Consults own id operator tree → (c.registry id).contains operator) (context : String) :
    Filter.compile ((c.withRegistry id ⟨(c.registry id).handlers ++ [(operator, handler)]⟩).scope own)
      context tree = Filter.compile (c.scope own) context tree := by
  refine compile_withRegistry (fun name hname => ?_) context
  rw [Registry.find?_append]
  by_cases hsame : name = operator
  · obtain ⟨first, hfirst⟩ := Option.isSome_iff_exists.mp (h (hsame ▸ hname))
    rw [hsame, hfirst, Option.some_or]
  · rw [if_neg hsame, Option.or_none]

/-- Of what is kept, what can be compiled makes no difference to what comes of a filter. -/
theorem filter_uniform (own : RegistryId) (params : List Value) (context : String) (tree : Value) :
    c.Uniform (Compile.collect params (Filter.compile (c.scope own) context tree)) :=
  (Filter.collect_related c.uniform_closed.congruence
    ⟨rfl, fun ref _ => ⟨rfl, c.embed_uniform ref.id⟩⟩ context params).2

end Catalogue

namespace Session

def Action.handler? (id : RegistryId) (operator : String) : Action → Option Handler
  | .register id' operator' handler => if id' = id ∧ operator' = operator then handler else none
  | _ => none

/-- The text of a filter and all values bound, those given first, or the error. -/
def translate (w : Workspace) (own : RegistryId) (front : List Value) (context : String)
    (tree : Value) : Except Error (String × List Value) :=
  Work.outcome (Compile.collect front (Filter.compile (w.scope own) context tree) w.journal)

variable {w : Workspace} {own id : RegistryId} {operator : String} {handler : Handler} {tree : Value}

/-- What is refused changes nothing, the journal included. -/
theorem register_refused (id : RegistryId) (operator : String) (w : Workspace) :
    register id operator none w = .error (.notCallable operator) w := rfl

theorem perform_register (id : RegistryId) (operator : String) (handler : Handler) (w : Workspace) :
    perform (.register id operator (some handler)) w =
      { w.withRegistry id ⟨(w.registry id).handlers ++ [(operator, handler)]⟩ with
        journal := w.journal.note (.registered operator) } := rfl

def Action.registries (w : Workspace) : Action → List Registry
  | .addRegistry => w.registries ++ [{}]
  | .register id operator (some handler) =>
    w.registries.set id ⟨(w.registry id).handlers ++ [(operator, handler)]⟩
  | _ => w.registries

theorem registries_perform (action : Action) (w : Workspace) :
    (perform action w).registries = action.registries w := by
  cases action with
  | addRegistry => rfl
  | register id operator handler => cases handler <;> rfl
  | addStatement s => rfl
  | start kind table registry idField pipeline =>
    exact after_read_keeps (I := fun v : Workspace => v.registries = w.registries) rfl fun _ _ => rfl
  | wrap t => rfl
  | call id c =>
    by_cases hb : ∃ b, w.sources[id]? = some (.builder b)
    · obtain ⟨b, hb⟩ := hb
      rw [perform, after_call hb]
      rfl
    · rw [perform, after_call_of_ne fun b h => hb ⟨b, h⟩]
      rfl
  | compile id => exact congrArg Catalogue.registries (after_ofWork _ w)
  | embed id => exact congrArg Catalogue.registries (after_ofWork _ w)
  | remembered id => exact congrArg Catalogue.registries (after_ofWork _ w)

/-- A registry stays, and takes the handler that the action offers if it has none. -/
theorem find?_perform (hid : id < w.registries.length) (operator : String) (action : Action) :
    id < (perform action w).registries.length ∧
    ((perform action w).registry id).find? operator =
      ((w.registry id).find? operator).or (action.handler? id operator) := by
  have hregistry : (perform action w).registry id = ((action.registries w)[id]?).getD {} := by
    rw [Catalogue.registry, registries_perform]
  rw [registries_perform, hregistry]
  cases action with
  | addRegistry =>
    refine ⟨Nat.lt_of_lt_of_le hid (by simp [Action.registries]), ?_⟩
    have hsame : (Action.addRegistry.registries w)[id]? = w.registries[id]? :=
      List.getElem?_append_left hid
    rw [hsame]
    exact (Option.or_none).symm
  | register id' operator' offered =>
    cases offered with
    | none =>
      have hnone : (Action.register id' operator' none).handler? id operator = none := ite_self none
      rw [hnone, Option.or_none]
      exact ⟨hid, rfl⟩
    | some handler =>
      refine ⟨by simpa [Action.registries] using hid, ?_⟩
      by_cases hsame : id' = id
      · subst hsame
        rw [Action.registries, List.getElem?_set_self hid, Option.getD_some, Registry.find?_append,
          Action.handler?]
        simp only [true_and, eq_comm]
      · have hnone : (Action.register id' operator' (some handler)).handler? id operator = none :=
          if_neg fun h => hsame h.1
        rw [Action.registries, List.getElem?_set_ne hsame, hnone, Option.or_none]
        rfl
  | _ => exact ⟨hid, (Option.or_none).symm⟩

/-- After any actions a registry has the handler that it had, or else the first that was accepted. -/
theorem find?_run (hid : id < w.registries.length) (operator : String) (actions : List Action) :
    ((run actions w).registry id).find? operator =
      ((w.registry id).find? operator).or (actions.findSome? (Action.handler? id operator)) := by
  induction actions generalizing w with
  | nil => exact (Option.or_none).symm
  | cons action actions ih =>
    obtain ⟨hlength, hfind⟩ := find?_perform hid operator action
    have hrun : run (action :: actions) w = run actions (perform action w) := rfl
    rw [hrun, ih hlength, hfind, Option.or_assoc, List.findSome?_cons]
    cases action.handler? id operator <;> simp

theorem translate_register
    (h : w.Consults own id operator tree → (w.registry id).contains operator) (front : List Value)
    (context : String) :
    translate (perform (.register id operator (some handler)) w) own front context tree =
      translate w own front context tree := by
  -- The journal has a further event then, but keeps the same statements.
  have hagree : w.toCatalogue.Agree (w.journal.note (.registered operator)) w.journal :=
    fun subquery _ => rfl
  have huniform := w.toCatalogue.filter_uniform own front context tree
  rw [translate, perform_register, translate, ← huniform.outcome_eq hagree]
  simp only [Catalogue.compile_register h]

/-- A marked key of a filter itself names a connective or nothing, whatever is registered. -/
theorem entryClause_of_no_connective {key : Value} (hkey : key.operator? = some operator)
    (h : Connective.ofName? operator = none) (scope : Scope) (context : String) (value : Value) :
    Filter.entryClause scope context key value =
      throw (.unsupported (.str "") (.str operator) (.str context)) := by
  simp only [Filter.entryClause.eq_def, hkey, Entry.connective, h]
  rfl

/-- Of the handlers offered to a registry for an operator, the first that is accepted is in force,
and what is refused leaves the workspace as it is. A new handler changes what comes of a filter only
if its operator is new and marked and the filter consults the registry for it. A marked key of the
filter itself is never given to a handler. -/
theorem registration_matters_only_where_applied (w : Workspace) (id : RegistryId) (operator : String) :
    (id < w.registries.length → ∀ actions, ((run actions w).registry id).find? operator =
      ((w.registry id).find? operator).or (actions.findSome? (Action.handler? id operator))) ∧
    (register id operator none w = .error (.notCallable operator) w ∧
      perform (.register id operator none) w = w) ∧
    (∀ handler own front context tree,
      (w.registry id).contains operator ∨ Text.isMarked operator = false ∨
        ¬ w.Consults own id operator tree →
      translate (perform (.register id operator (some handler)) w) own front context tree =
        translate w own front context tree) ∧
    (Text.isMarked operator → Connective.ofName? operator = none → ∀ scope context value,
      Filter.entryClause scope context (.str operator) value =
        throw (.unsupported (.str "") (.str operator) (.str context))) := by
  refine ⟨fun hid actions => find?_run hid operator actions, ⟨register_refused id operator w, rfl⟩,
    fun handler own front context tree h => ?_, fun hmarked hname scope context value => ?_⟩
  · refine translate_register (fun hconsults => ?_) front context
    rcases h with hcontains | hunmarked | hnot
    · exact hcontains
    · exact absurd hconsults.marked (by simp [hunmarked])
    · exact absurd hconsults hnot
  · have hkey : (Value.str operator).operator? = some operator := if_pos hmarked
    exact entryClause_of_no_connective hkey hname scope context value

def adults : Workspace where
  sources := [.builder (.select
    { table := "users", filter := .single [(.str "age", .map [(.str "$gt", .int 17)])] })]
  targets := [.source 0]

def ownedByAdult : Value :=
  .map [(.str "$and", .list [.map [(.str "owner", .map
    [(.str "$in", .subquery ⟨0, "SubQuery(SELECT)"⟩)])]])]

theorem ownedByAdult_not_consults : ¬ adults.Consults 0 0 "$and" ownedByAdult := by
  have hnests : ∀ inner, ¬ adults.Nests 0 inner := by
    rintro inner (⟨source, hsource, b, ref, hb, href, -⟩ | htarget)
    · obtain rfl : 0 = source := Target.source.inj (Option.some.inj hsource)
      obtain rfl := Source.builder.inj (Option.some.inj hb)
      cases href with
      | tail _ hnone => cases hnone
    · cases htarget
  rintro (⟨-, happlied⟩ | ⟨ref, inner, href, hwithin, source, b, htarget, hb, -, happlied⟩)
  · have hnot : "$and" ∉ Filter.applied ownedByAdult := by decide
    exact hnot happlied
  · obtain rfl : ref = ⟨0, "SubQuery(SELECT)"⟩ := by
      cases href with
      | tail _ hsecond =>
        cases hsecond with
        | head => rfl
        | tail _ hnone => cases hnone
    rcases hwithin.cases_head with rfl | ⟨next, hnext, -⟩
    · obtain rfl : 0 = source := Target.source.inj (Option.some.inj htarget)
      obtain rfl := Source.builder.inj (Option.some.inj hb)
      have hnot : "$and" ∉ ["$gt"] := by decide
      exact hnot happlied
    · exact hnests next hnext

/-- A handler for the name of the group is offered twice and is in force, but the group is compiled
as before, with the sub-query in it; as a key of the filter a name of one's own is refused. -/
theorem handler_for_group_name_is_not_asked :
    ((run [.register 0 "$and" none, .register 0 "$and" (some .half),
      .register 0 "$and" (some .path)] adults).registry 0).find? "$and" = some .half ∧
    ¬ adults.Consults 0 0 "$and" ownedByAdult ∧
    translate (perform (.register 0 "$and" (some .half)) adults) 0 [.null] "root" ownedByAdult =
      .ok ("(owner IN (SELECT * FROM users WHERE age > ?))", [.null, .int 17]) ∧
    Filter.entryClause ((perform (.register 0 "$near" (some .half)) adults).scope 0) "root"
      (.str "$near") .null = throw (.unsupported (.str "") (.str "$near") (.str "root")) := by
  obtain ⟨hrun, -, htranslate, -⟩ := registration_matters_only_where_applied adults 0 "$and"
  obtain ⟨-, -, -, hentry⟩ := registration_matters_only_where_applied adults 0 "$near"
  refine ⟨hrun (by decide) _, ownedByAdult_not_consults, ?_, hentry (by decide) (by decide) _ _ _⟩
  exact htranslate .half 0 [.null] "root" ownedByAdult (.inr (.inr ownedByAdult_not_consults))

end Session

end BoundQuery
