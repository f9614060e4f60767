import BoundQuery.Proofs.Appending
import BoundQuery.Proofs.BulkUpdate

/-! Updates by operators. A payload names fields under operators, or plain fields that are put. It
is read as a row of changes to fields; an update is made exactly of the payloads in which every
operator is known and has an operand of its kind, and that change a field at all. -/
namespace BoundQuery

namespace UpdateOperator

def name : UpdateOperator → String
  | put => "$set"
  | increase => "$inc"
  | multiply => "$mul"
  | unset => "$unset"

theorem ofName?_eq_some_iff {s : String} {operator : UpdateOperator} :
    ofName? s = some operator ↔ s = operator.name := by
  constructor
  · intro h
    unfold ofName? at h
    split at h
    · obtain rfl := Option.some.inj h
      assumption
    · split at h
      · obtain rfl := Option.some.inj h
        assumption
      · split at h
        · obtain rfl := Option.some.inj h
          assumption
        · split at h
          · obtain rfl := Option.some.inj h
            assumption
          · cases h
  · rintro rfl
    cases operator <;> decide

theorem isMarked_name (operator : UpdateOperator) : Text.isMarked operator.name = true := by
  cases operator <;> decide

/-- Fields are given with their values, in a map; those to unset may also be listed. -/
def Takes : UpdateOperator → Value → Prop
  | unset, v => (∃ es, v = .map es) ∨ ∃ items, v.sequence? = some items
  | _, v => ∃ es, v = .map es

end UpdateOperator

/-- What a payload asks for one field. A field to unset has no use for the value. -/
structure FieldChange where
  operator : UpdateOperator
  field : Value
  value : Value

namespace FieldChange

def written (c : FieldChange) : String :=
  match c.operator with
  | .put => c.field.text ++ " = ?"
  | .increase => c.field.text ++ " = " ++ c.field.text ++ " + ?"
  | .multiply => c.field.text ++ " = " ++ c.field.text ++ " * ?"
  | .unset => c.field.text ++ " = NULL"

def hasValue (c : FieldChange) : Bool := c.operator != .unset

/-- The value is bound as it is, but for one that is put, which is bound in its stored form. -/
def Binds (c : FieldChange) (w : Value) : Prop :=
  match c.operator with
  | .put => c.value.StoredAs w
  | _ => w = c.value

theorem binds_iff {c : FieldChange} {w : Value} (h : c.hasValue = true) :
    c.Binds w ↔ c.operator.bound c.value = .ok w := by
  obtain ⟨operator, field, value⟩ := c
  cases operator with
  | put => exact Value.stored_eq_ok_iff.symm
  | unset => cases h
  | _ => simp [Binds, UpdateOperator.bound, eq_comm]

theorem written_eq (c : FieldChange) : c.written = c.operator.assignment c.field.text := by
  obtain ⟨operator, field, value⟩ := c
  cases operator <;> rfl

/-- The assignments for a row of changes, and the values for them. -/
def Assigned (changes : List FieldChange) (a : Assignments) : Prop :=
  a.texts = changes.map written ∧ List.Forall₂ Binds (changes.filter hasValue) a.params

theorem Assigned.nil : Assigned [] {} := ⟨rfl, .nil⟩

theorem Assigned.append {first second : List FieldChange} {a b : Assignments}
    (ha : Assigned first a) (hb : Assigned second b) : Assigned (first ++ second) (a.append b) := by
  refine ⟨by simp [Assignments.append, ha.1, hb.1], ?_⟩
  rw [List.filter_append]
  exact List.rel_append ha.2 hb.2

def Bindable (changes : List FieldChange) : Prop :=
  ∀ c ∈ changes, c.hasValue = true → ∃ w, c.Binds w

theorem Assigned.bindable {changes : List FieldChange} {a : Assignments} (h : Assigned changes a) :
    Bindable changes := by
  intro c hc hvalue
  exact exists_forall₂_iff.mp ⟨_, h.2⟩ c (List.mem_filter.mpr ⟨hc, hvalue⟩)

theorem bindable_append {first second : List FieldChange} :
    Bindable (first ++ second) ↔ Bindable first ∧ Bindable second := List.forall_mem_append

end FieldChange

namespace Update

open FieldChange

def operandChanges (operator : UpdateOperator) : Value → List FieldChange
  | .map es => es.map fun e => ⟨operator, e.1, e.2⟩
  | .list items => items.map fun v => ⟨operator, v, .null⟩
  | .tuple items => items.map fun v => ⟨operator, v, .null⟩
  | _ => []

/-- The changes that a payload asks for, in its order. A name without an operator is a field. -/
def changes (fields : Fields) : List FieldChange :=
  fields.flatMap fun f =>
    match UpdateOperator.ofName? f.1 with
    | some operator => operandChanges operator f.2
    | none => [⟨.put, .str f.1, f.2⟩]

theorem changes_cons_operator (operator : UpdateOperator) (operand : Value) (rest : Fields) :
    changes ((operator.name, operand) :: rest) = operandChanges operator operand ++ changes rest := by
  have hname := UpdateOperator.ofName?_eq_some_iff.mpr (Eq.refl operator.name)
  simp only [changes, List.flatMap_cons, hname]

/-- A name without a mark is no operator. -/
theorem ofName?_of_unmarked {name : String} (h : Text.isMarked name = false) :
    UpdateOperator.ofName? name = none := by
  refine Option.eq_none_iff_forall_ne_some.mpr fun operator hname => ?_
  rw [UpdateOperator.ofName?_eq_some_iff.mp hname, operator.isMarked_name] at h
  cases h

theorem changes_of_unmarked {fields : Fields} (h : ∀ f ∈ fields, Text.isMarked f.1 = false) :
    changes fields = fields.map fun f => ⟨.put, .str f.1, f.2⟩ := by
  induction fields with
  | nil => rfl
  | cons f rest ih =>
    obtain ⟨hf, hrest⟩ := List.forall_mem_cons.mp h
    have hcons : changes (f :: rest) = ⟨.put, .str f.1, f.2⟩ :: changes rest := by
      simp only [changes, List.flatMap_cons, ofName?_of_unmarked hf, List.singleton_append]
    rw [hcons, ih hrest, List.map_cons]

section Assignments

variable {operator : UpdateOperator} {a : Assignments}

theorem fieldAssignments_assigned (hoperator : operator ≠ .unset) {es : Entries}
    (h : fieldAssignments operator es = .ok a) :
    Assigned (es.map fun e => ⟨operator, e.1, e.2⟩) a := by
  induction es generalizing a with
  | nil =>
    obtain rfl := Except.ok.inj h
    exact .nil
  | cons e es ih =>
    obtain ⟨w, hw, h⟩ := except_bind_eq_ok_iff.mp h
    obtain ⟨b, hb, h⟩ := except_bind_eq_ok_iff.mp h
    obtain rfl := Except.ok.inj h
    have hvalue : hasValue ⟨operator, e.1, e.2⟩ = true := by simpa [hasValue] using hoperator
    have hfirst : Assigned [⟨operator, e.1, e.2⟩] ⟨[operator.assignment e.1.text], [w]⟩ := by
      refine ⟨by rw [List.map_singleton, written_eq], ?_⟩
      rw [List.filter_cons_of_pos hvalue, List.filter_nil]
      exact .cons ((binds_iff hvalue).mpr hw) .nil
    exact hfirst.append (ih hb)

theorem exists_fieldAssignments (hoperator : operator ≠ .unset) {es : Entries}
    (h : Bindable (es.map fun e => ⟨operator, e.1, e.2⟩)) :
    ∃ a, fieldAssignments operator es = .ok a := by
  induction es with
  | nil => exact ⟨_, rfl⟩
  | cons e es ih =>
    obtain ⟨hfirst, hrest⟩ := List.forall_mem_cons.mp h
    have hvalue : hasValue ⟨operator, e.1, e.2⟩ = true := by simpa [hasValue] using hoperator
    obtain ⟨w, hw⟩ := hfirst hvalue
    obtain ⟨b, hb⟩ := ih hrest
    have hbound := (binds_iff hvalue).mp hw
    exact ⟨_, except_bind_eq_ok_iff.mpr ⟨w, hbound, except_bind_eq_ok_iff.mpr ⟨b, hb, rfl⟩⟩⟩

/-- The fields to unset are those of the operand, if it is of the kind for them. -/
theorem unsetFields_eq_ok_iff {operand : Value} {fields : List Value} :
    unsetFields operand = .ok fields ↔ UpdateOperator.unset.Takes operand ∧
      fields = (operandChanges .unset operand).map FieldChange.field := by
  cases operand with
  | map es =>
    simp [unsetFields, UpdateOperator.Takes, operandChanges, Entries.keys, Function.comp_def, eq_comm]
  | list items =>
    simp [unsetFields, UpdateOperator.Takes, operandChanges, Value.sequence?, Function.comp_def,
      eq_comm]
  | tuple items =>
    simp [unsetFields, UpdateOperator.Takes, operandChanges, Value.sequence?, Function.comp_def,
      eq_comm]
  | _ => simp [unsetFields, UpdateOperator.Takes, Value.sequence?]

theorem operator_of_operandChanges {operand : Value} {c : FieldChange}
    (h : c ∈ operandChanges operator operand) : c.operator = operator := by
  cases operand with
  | map es =>
    obtain ⟨e, -, rfl⟩ := List.mem_map.mp h
    rfl
  | list items =>
    obtain ⟨v, -, rfl⟩ := List.mem_map.mp h
    rfl
  | tuple items =>
    obtain ⟨v, -, rfl⟩ := List.mem_map.mp h
    rfl
  | _ => cases h

/-- Nothing is bound for fields to unset. -/
theorem assigned_unset (operand : Value) : Assigned (operandChanges .unset operand)
    ⟨(operandChanges .unset operand).map fun c => UpdateOperator.unset.assignment c.field.text, []⟩ := by
  have hoperator : ∀ c ∈ operandChanges .unset operand, c.operator = .unset :=
    fun c hc => operator_of_operandChanges hc
  constructor
  · refine List.map_congr_left fun c hc => ?_
    rw [written_eq, hoperator c hc]
  · rw [List.filter_eq_nil_iff.mpr fun c hc => by simp [hasValue, hoperator c hc]]
    exact .nil

theorem operationAssignments_assigned {name : String} {operand : Value}
    (h : operationAssignments name operand = .ok a) :
    ∃ operator : UpdateOperator, name = operator.name ∧ operator.Takes operand ∧
      Assigned (operandChanges operator operand) a := by
  unfold operationAssignments at h
  split at h
  · cases h
  · rename_i hname
    obtain ⟨fields, hfields, h⟩ := except_bind_eq_ok_iff.mp h
    obtain ⟨htakes, rfl⟩ := unsetFields_eq_ok_iff.mp hfields
    obtain rfl := Except.ok.inj h
    refine ⟨.unset, UpdateOperator.ofName?_eq_some_iff.mp hname, htakes, ?_⟩
    rw [List.map_map]
    exact assigned_unset operand
  · rename_i operator hunset hname
    have hoperator : operator ≠ .unset := fun he => hunset (he ▸ rfl)
    cases operand with
    | map es =>
      have htakes : operator.Takes (.map es) := by
        cases operator with
        | unset => exact absurd rfl hoperator
        | _ => exact ⟨es, rfl⟩
      exact ⟨operator, UpdateOperator.ofName?_eq_some_iff.mp hname, htakes,
        fieldAssignments_assigned hoperator h⟩
    | _ => cases h

theorem exists_operationAssignments {operand : Value} (htakes : operator.Takes operand)
    (h : Bindable (operandChanges operator operand)) :
    ∃ a, operationAssignments operator.name operand = .ok a := by
  have hname := UpdateOperator.ofName?_eq_some_iff.mpr (Eq.refl operator.name)
  unfold operationAssignments
  rw [hname]
  by_cases hoperator : operator = .unset
  · subst hoperator
    have hfields := unsetFields_eq_ok_iff.mpr ⟨htakes, rfl⟩
    exact ⟨_, except_bind_eq_ok_iff.mpr ⟨_, hfields, rfl⟩⟩
  · have hmap : ∃ es, operand = .map es := by
      cases operator with
      | unset => exact absurd rfl hoperator
      | _ => exact htakes
    obtain ⟨es, rfl⟩ := hmap
    obtain ⟨a, ha⟩ := exists_fieldAssignments hoperator h
    cases operator with
    | unset => exact absurd rfl hoperator
    | _ => exact ⟨a, ha⟩

def Known (fields : Fields) : Prop :=
  ∀ f ∈ fields, ∃ operator : UpdateOperator, f.1 = operator.name ∧ operator.Takes f.2

theorem assignments_assigned {fields : Fields} (h : assignments fields.toEntries = .ok a) :
    Known fields ∧ Assigned (changes fields) a := by
  induction fields generalizing a with
  | nil =>
    obtain rfl := Except.ok.inj h
    exact ⟨List.forall_mem_nil _, .nil⟩
  | cons f rest ih =>
    obtain ⟨name, operand⟩ := f
    obtain ⟨b, hb, h⟩ := except_bind_eq_ok_iff.mp h
    obtain ⟨c, hc, h⟩ := except_bind_eq_ok_iff.mp h
    obtain rfl := Except.ok.inj h
    obtain ⟨operator, rfl, htakes, hfirst⟩ := operationAssignments_assigned hb
    obtain ⟨hknown, hrest⟩ := ih hc
    rw [changes_cons_operator]
    exact ⟨List.forall_mem_cons.mpr ⟨⟨operator, rfl, htakes⟩, hknown⟩, hfirst.append hrest⟩

theorem exists_assignments {fields : Fields} (hknown : Known fields)
    (h : Bindable (changes fields)) : ∃ a, assignments fields.toEntries = .ok a := by
  induction fields with
  | nil => exact ⟨_, rfl⟩
  | cons f rest ih =>
    obtain ⟨name, operand⟩ := f
    obtain ⟨⟨operator, rfl, htakes⟩, hrest⟩ := List.forall_mem_cons.mp hknown
    rw [changes_cons_operator, bindable_append] at h
    obtain ⟨b, hb⟩ := exists_operationAssignments htakes h.1
    obtain ⟨c, hc⟩ := ih hrest h.2
    exact ⟨_, except_bind_eq_ok_iff.mpr ⟨b, hb, except_bind_eq_ok_iff.mpr ⟨c, hc, rfl⟩⟩⟩

end Assignments

section Values

theorem textKeyed_of_entries {es : Entries} (h : Filter.EntriesTextKeyed es) :
    ∀ e ∈ es, Filter.TextKeyed e.2 := by
  induction es with
  | nil => exact List.forall_mem_nil _
  | cons e es ih => exact List.forall_mem_cons.mpr ⟨h.2.1, ih h.2.2⟩

theorem textKeyed_of_operandChanges {operator : UpdateOperator} {operand : Value} {c : FieldChange}
    (h : Filter.TextKeyed operand) (hc : c ∈ operandChanges operator operand) :
    Filter.TextKeyed c.value := by
  cases operand with
  | map es =>
    obtain ⟨e, he, rfl⟩ := List.mem_map.mp hc
    exact textKeyed_of_entries h e he
  | list items =>
    obtain ⟨v, -, rfl⟩ := List.mem_map.mp hc
    trivial
  | tuple items =>
    obtain ⟨v, -, rfl⟩ := List.mem_map.mp hc
    trivial
  | _ => cases hc

theorem exists_binds {c : FieldChange} (h : Filter.TextKeyed c.value) : ∃ w, c.Binds w := by
  obtain ⟨operator, field, value⟩ := c
  cases operator with
  | put => exact Value.exists_storedAs h
  | _ => exact ⟨value, rfl⟩

theorem bindable_of_textKeyed {m : TextMap} (h : m.TextKeyed) : Bindable (changes m.fields) := by
  intro c hc _
  obtain ⟨f, hf, hc⟩ := List.mem_flatMap.mp hc
  split at hc
  · exact exists_binds (textKeyed_of_operandChanges (h f hf) hc)
  · obtain rfl := List.mem_singleton.mp hc
    exact exists_binds (h f hf)

end Values

section Payload

variable {fields : Fields} {u : Update}

def Uniform (fields : Fields) : Prop :=
  (∀ f ∈ fields, Text.isMarked f.1 = true) ∨ ∀ f ∈ fields, Text.isMarked f.1 = false

/-- The payload by operators: plain fields are put. -/
def operators (fields : Fields) : Fields :=
  if ∀ f ∈ fields, Text.isMarked f.1 = true then fields else [("$set", fields.toValue)]

theorem operators_of_marked (h : ∀ f ∈ fields, Text.isMarked f.1 = true) :
    operators fields = fields := if_pos h

theorem operators_of_unmarked (hne : fields ≠ []) (h : ∀ f ∈ fields, Text.isMarked f.1 = false) :
    operators fields = [("$set", fields.toValue)] := by
  obtain ⟨f, hf⟩ := List.exists_mem_of_ne_nil fields hne
  exact if_neg fun hall => Bool.false_ne_true ((h f hf).symm.trans (hall f hf))

/-- Plain fields ask for what they ask for when they are put. -/
theorem changes_operators (hne : fields ≠ []) (h : Uniform fields) :
    changes (operators fields) = changes fields := by
  rcases h with h | h
  · rw [operators_of_marked h]
  · have hput : changes [("$set", fields.toValue)] = operandChanges .put fields.toValue := by
      rw [show "$set" = UpdateOperator.put.name from rfl, changes_cons_operator]
      exact List.append_nil _
    rw [operators_of_unmarked hne h, hput, changes_of_unmarked h]
    simp [operandChanges, Fields.toValue, Fields.toEntries]

theorem known_operators_iff (hne : fields ≠ []) (h : Uniform fields) :
    Known (operators fields) ↔ ∀ f ∈ fields, Text.isMarked f.1 = true →
      ∃ operator : UpdateOperator, f.1 = operator.name ∧ operator.Takes f.2 := by
  rcases h with h | h
  · rw [operators_of_marked h]
    exact ⟨fun hknown f hf _ => hknown f hf, fun hknown f hf => hknown f hf (h f hf)⟩
  · rw [operators_of_unmarked hne h]
    have hput : Known [("$set", fields.toValue)] :=
      List.forall_mem_singleton.mpr ⟨.put, rfl, _, rfl⟩
    exact ⟨fun _ f hf hmarked => absurd ((h f hf).symm.trans hmarked) Bool.false_ne_true,
      fun _ => hput⟩

theorem isOperator_str (name : String) : (Value.str name).isOperator = Text.isMarked name := by
  simp only [Value.isOperator, Value.operator?]
  split <;> simp_all

theorem readOperations_of_not_uniform (h : ¬ Uniform fields) :
    readOperations fields.toEntries = .error (generationError .mixedPayload) := by
  obtain ⟨hall, hany⟩ := not_or.mp h
  have hempty : fields.toEntries.isEmpty = false := by
    cases fields with
    | nil => exact absurd (List.forall_mem_nil _) hall
    | cons f rest => rfl
  have hnot : (fields.toEntries.all fun e => e.1.isOperator) = false := by
    simpa [Fields.toEntries, isOperator_str] using hall
  have hsome : (fields.toEntries.any fun e => e.1.isOperator) = true := by
    simpa [Fields.toEntries, isOperator_str] using hany
  simp [readOperations, hempty, hnot, hsome]

theorem readOperations_of_uniform (hne : fields ≠ []) (h : Uniform fields) :
    readOperations fields.toEntries = .ok (operators fields).toEntries := by
  have hempty : fields.toEntries.isEmpty = false := by simpa [Fields.toEntries] using hne
  rcases h with h | h
  · have hall : (fields.toEntries.all fun e => e.1.isOperator) = true := by
      simpa [Fields.toEntries, isOperator_str] using h
    simp [readOperations, hempty, hall, operators_of_marked h]
  · have hnone : (fields.toEntries.any fun e => e.1.isOperator) = false := by
      simpa [Fields.toEntries, isOperator_str] using h
    have hnot : (fields.toEntries.all fun e => e.1.isOperator) = false := by
      obtain ⟨f, hf⟩ := List.exists_mem_of_ne_nil fields hne
      simpa [Fields.toEntries, isOperator_str] using ⟨f.1, ⟨f.2, hf⟩, h f hf⟩
    rw [operators_of_unmarked hne h]
    simp only [readOperations, hempty, hnone, hnot]
    rfl

/-- A payload that is read replaces the one before; one that is refused leaves it in force. -/
theorem apply_update_map (u : Update) (es : Entries) : apply (.update (.map es)) u =
    match readOperations es with
    | .ok operations => .ok () { u with payload := some (.operations operations) }
    | .error e => .error e u := by
  have hread : readPayload u.idField (.map es) =
      (readOperations es >>= fun operations => .ok (.operations operations)) := rfl
  have happly : apply (.update (.map es)) u =
      (liftM (readPayload u.idField (.map es)) >>= fun payload =>
        set { u with payload := some payload } : Change Update Unit) u := rfl
  rw [happly, hread]
  cases readOperations es <;> rfl

theorem apply_update_eq_ok_iff {u' : Update} :
    apply (.update fields.toValue) u = .ok () u' ↔ fields ≠ [] ∧ Uniform fields ∧
      u' = { u with payload := some (.operations (operators fields).toEntries) } := by
  rw [Fields.toValue, apply_update_map]
  by_cases hne : fields = []
  · subst hne
    simp [readOperations, Fields.toEntries]
  · by_cases h : Uniform fields
    · simp [readOperations_of_uniform hne h, hne, h, eq_comm]
    · simp [readOperations_of_not_uniform h, h]

end Payload

section Statement

variable {c : Catalogue} {u : Update} {j k : Journal} {clause : String} {params : List Value}

/-- A filter that translates does so after any values, which stay in front of its own. -/
theorem collect_after {id : RegistryId} {tree : Value} {context : String}
    (hhandlers : ∀ name ∈ Filter.applied tree, ∀ h, (c.registry id).find? name = some h →
      h.OnlyAppends)
    (h : Compile.collect [] (Filter.compile (c.scope id) context tree) j = .ok (clause, params) k)
    (front : List Value) :
    ∃ k', Compile.collect front (Filter.compile (c.scope id) context tree) j =
      .ok (clause, front ++ params) k' := by
  have hparallel : c.Parallel front context context String
      (Filter.compile (c.scope id) context tree) (Filter.compile (c.scope id) context tree) :=
    Catalogue.compile_parallel front fun name hname h hfind => ⟨hhandlers name hname h hfind, rfl⟩
  have hends := hparallel ⟨front, j⟩ ⟨[], j⟩ ⟨(List.append_nil front).symm, fun _ _ => rfl⟩
  obtain ⟨d, hd, rfl⟩ := Compile.collect_run h
  rw [hd] at hends
  unfold Compile.collect
  generalize Filter.compile (c.scope id) context tree ⟨front, j⟩ = result at hends ⊢
  cases hends with
  | @ok _ d' _ hahead => exact ⟨d'.journal, by simp only [hahead.params]⟩

theorem compile_operations_iff {scope : Scope} (operations : Entries)
    (hfilter : u.filter.isEmpty = false)
    (htranslates : ∀ front, ∃ k, Compile.collect front
      (Filter.compile scope "UPDATE" u.filter.toTree) j = .ok (clause, front ++ params) k)
    (s : Statement) :
    (∃ k', { u with payload := some (.operations operations) }.compile scope j = .ok s k') ↔
      ∃ a, assignments operations = .ok a ∧ a.texts ≠ [] ∧
        s = ⟨u.head a.texts ++ clause ++ singleLimit u.single, a.params ++ params⟩ := by
  constructor
  · rintro ⟨k', h⟩
    obtain ⟨-, payload, body, l, hgiven, hbody, rfl, -⟩ := compile_eq_ok_iff.mp h
    obtain rfl := Option.some.inj hgiven
    obtain ⟨a, clause', params', ha, hne, hcollect, rfl⟩ := operatorUpdate_eq_ok_iff.mp hbody
    obtain ⟨k, hk⟩ := htranslates a.params
    obtain ⟨hclause, -⟩ := EStateM.Result.ok.inj (hk.symm.trans hcollect)
    obtain ⟨rfl, rfl⟩ := Prod.mk.inj hclause
    exact ⟨a, ha, by simpa using hne, rfl⟩
  · rintro ⟨a, ha, hne, rfl⟩
    obtain ⟨k, hk⟩ := htranslates a.params
    have hbody := operatorUpdate_eq_ok_iff.mpr ⟨a, clause, _, ha, by simpa using hne, hk, rfl⟩
    exact ⟨_, compile_eq_ok_iff.mpr ⟨hfilter, _, _, k, rfl, hbody, rfl, rfl⟩⟩

end Statement

structure WellFormed (fields : Fields) : Prop where
  nonempty : fields ≠ []
  uniform : Uniform fields
  known : ∀ f ∈ fields, Text.isMarked f.1 = true →
    ∃ operator : UpdateOperator, f.1 = operator.name ∧ operator.Takes f.2
  assigns : changes fields ≠ []

section Made

variable {scope : Scope} {u : Update} {fields : Fields} {j : Journal} {clause : String}
  {params : List Value}

/-- An update by a payload is made of the assignments for its changes. -/
theorem made_of_changes {u' : Update} {s : Statement} {k : Journal}
    (hfilter : u.filter.isEmpty = false)
    (htranslates : ∀ front, ∃ k, Compile.collect front
      (Filter.compile scope "UPDATE" u.filter.toTree) j = .ok (clause, front ++ params) k)
    (happly : apply (.update fields.toValue) u = .ok () u') (h : u'.compile scope j = .ok s k) :
    WellFormed fields ∧ ∃ a, Assigned (changes fields) a ∧
      s = ⟨u.head a.texts ++ clause ++ singleLimit u.single, a.params ++ params⟩ := by
  obtain ⟨hne, huniform, rfl⟩ := apply_update_eq_ok_iff.mp happly
  obtain ⟨a, ha, htexts, rfl⟩ := (compile_operations_iff _ hfilter htranslates s).mp ⟨k, h⟩
  obtain ⟨hknown, hassigned⟩ := assignments_assigned ha
  rw [changes_operators hne huniform] at hassigned
  have hchanges : changes fields ≠ [] := by
    intro hnil
    rw [hassigned.1, hnil] at htexts
    exact htexts rfl
  exact ⟨⟨hne, huniform, (known_operators_iff hne huniform).mp hknown, hchanges⟩, a, hassigned, rfl⟩

theorem exists_made (hfilter : u.filter.isEmpty = false)
    (htranslates : ∀ front, ∃ k, Compile.collect front
      (Filter.compile scope "UPDATE" u.filter.toTree) j = .ok (clause, front ++ params) k)
    (h : WellFormed fields) (hbindable : Bindable (changes fields)) :
    ∃ u' s k, apply (.update fields.toValue) u = .ok () u' ∧ u'.compile scope j = .ok s k := by
  obtain ⟨hne, huniform, hknown, hchanges⟩ := h
  rw [← changes_operators hne huniform] at hbindable hchanges
  obtain ⟨a, ha⟩ := exists_assignments ((known_operators_iff hne huniform).mpr hknown) hbindable
  have htexts : a.texts ≠ [] := by
    rw [(assignments_assigned ha).2.1]
    exact fun hnil => hchanges (List.map_eq_nil_iff.mp hnil)
  obtain ⟨k, hk⟩ := (compile_operations_iff _ hfilter htranslates _).mpr ⟨a, ha, htexts, rfl⟩
  exact ⟨_, _, k, apply_update_eq_ok_iff.mpr ⟨hne, huniform, rfl⟩, hk⟩

end Made

/-- An update is made of a payload exactly if every operator in it is known and has an operand of
its kind, the keys are not of both kinds, a field is changed at all, and the values can be bound,
as they can if all maps have texts for keys. It has an assignment for each change, in the order of
the payload, with the values of the changes that have one before those of the filter. Plain fields
are those that are put. Keys of both kinds are refused at once, and the payload before stays. -/
theorem operator_update_follows_payload (c : Catalogue) (u : Update) (m : TextMap)
    (hfilter : u.filter.isEmpty = false)
    (hhandlers : ∀ name ∈ Filter.applied u.filter.toTree, ∀ h,
      (c.registry u.registry).find? name = some h → h.OnlyAppends)
    (j k : Journal) (clause : String) (params : List Value)
    (htranslates : Compile.collect []
      (Filter.compile (c.scope u.registry) "UPDATE" u.filter.toTree) j = .ok (clause, params) k) :
    ((∃ u' s k', apply (.update m.fields.toValue) u = .ok () u' ∧
        u'.compile (c.scope u.registry) j = .ok s k') ↔
      WellFormed m.fields ∧ Bindable (changes m.fields)) ∧
    (m.TextKeyed → ((∃ u' s k', apply (.update m.fields.toValue) u = .ok () u' ∧
        u'.compile (c.scope u.registry) j = .ok s k') ↔ WellFormed m.fields)) ∧
    (∀ u' s k', apply (.update m.fields.toValue) u = .ok () u' →
      u'.compile (c.scope u.registry) j = .ok s k' →
      s.sql = "UPDATE " ++ u.table ++ " SET " ++ ", ".intercalate ((changes m.fields).map written)
        ++ " WHERE " ++ clause ++ singleLimit u.single ∧
      ∃ values, List.Forall₂ Binds ((changes m.fields).filter hasValue) values ∧
        s.params = values ++ params) ∧
    (m.fields ≠ [] → (∀ name ∈ m.names, Text.isMarked name = false) →
      ∃ u', apply (.update m.fields.toValue) u = .ok () u' ∧
        apply (.update (.map [(.str "$set", m.fields.toValue)])) u = .ok () u') ∧
    ((∃ name ∈ m.names, Text.isMarked name = true) → (∃ name ∈ m.names, Text.isMarked name = false) →
      apply (.update m.fields.toValue) u = .error (generationError .mixedPayload) u) := by
  have hafter := collect_after hhandlers htranslates
  have hmade : (∃ u' s k', apply (.update m.fields.toValue) u = .ok () u' ∧
      u'.compile (c.scope u.registry) j = .ok s k') ↔
        WellFormed m.fields ∧ Bindable (changes m.fields) := by
    constructor
    · rintro ⟨u', s, k', happly, hcompile⟩
      obtain ⟨hformed, a, hassigned, -⟩ := made_of_changes hfilter hafter happly hcompile
      exact ⟨hformed, hassigned.bindable⟩
    · exact fun h => exists_made hfilter hafter h.1 h.2
  refine ⟨hmade, fun hkeys => ?_, fun u' s k' happly hcompile => ?_, fun hne hplain => ?_,
    fun hmarked hplain => ?_⟩
  · rw [hmade, and_iff_left (bindable_of_textKeyed hkeys)]
  · obtain ⟨-, a, ⟨htexts, hvalues⟩, rfl⟩ := made_of_changes hfilter hafter happly hcompile
    refine ⟨?_, a.params, hvalues, rfl⟩
    rw [← htexts]
    rfl
  · have hunmarked : ∀ f ∈ m.fields, Text.isMarked f.1 = false :=
      fun f hf => hplain f.1 (List.mem_map.mpr ⟨f, hf, rfl⟩)
    refine ⟨_, apply_update_eq_ok_iff.mpr ⟨hne, .inr hunmarked, rfl⟩, ?_⟩
    rw [operators_of_unmarked hne hunmarked]
    rfl
  · have hmixed : ¬ Uniform m.fields := by
      obtain ⟨name, hname, hmarked⟩ := hmarked
      obtain ⟨other, hother, hplain⟩ := hplain
      obtain ⟨f, hf, rfl⟩ := List.mem_map.mp hname
      obtain ⟨g, hg, rfl⟩ := List.mem_map.mp hother
      rintro (h | h)
      · exact Bool.false_ne_true (hplain.symm.trans (h g hg))
      · exact Bool.false_ne_true ((h f hf).symm.trans hmarked)
    rw [Fields.toValue, apply_update_map, readOperations_of_not_uniform hmixed]

def initialA : Update where
  table := "users"
  filter := .single [(.str "name", .map [(.str "$prefix", .str "A")])]

/-- A list is put into a field with braces in its name, before a field that is unset. -/
def tidied : TextMap where
  fields := [("$set", .map [(.str "tags\x7b0\x7d", .list [.int 1, .null])]),
    ("$unset", .tuple [.str "note"]), ("$inc", .map [(.str "visits", .int 2)])]
  distinct := by decide

def halfMarked : TextMap where
  fields := [("$set", .map [(.str "a", .int 1)]), ("b", .int 2)]
  distinct := by decide

theorem tidied_follows_payload :
    (∃ u' s k, apply (.update tidied.fields.toValue) initialA = .ok () u' ∧
      u'.compile (Filter.prefixedAdults.scope 0) {} = .ok s k ∧
      s.sql = "UPDATE users SET tags\x7b0\x7d = ?, note = NULL, visits = visits + ? WHERE name LIKE ?" ∧
      s.params = [.str "[1,null]", .int 2, .str "A%"]) ∧
    apply (.update halfMarked.fields.toValue) initialA =
      .error (generationError .mixedPayload) initialA := by
  have hhandlers : ∀ name ∈ Filter.applied initialA.filter.toTree, ∀ h,
      (Filter.prefixedAdults.registry initialA.registry).find? name = some h → h.OnlyAppends := by
    intro name _ h hfind
    simp only [Filter.prefixedAdults, Catalogue.registry, Registry.find?, initialA,
      List.getElem?_cons_zero, Option.getD_some, List.lookup_cons, List.lookup_nil] at hfind
    split at hfind
    · obtain rfl := Option.some.inj hfind
      exact Handler.startsWith_onlyAppends
    · cases hfind
  have htranslates : ∃ k, Compile.collect []
      (Filter.compile (Filter.prefixedAdults.scope initialA.registry) "UPDATE" initialA.filter.toTree)
        {} = .ok ("name LIKE ?", [.str "A%"]) k := ⟨_, rfl⟩
  obtain ⟨l, htranslates⟩ := htranslates
  have hfollows := fun m => operator_update_follows_payload Filter.prefixedAdults initialA m rfl
    hhandlers {} l _ _ htranslates
  have hkeys : tidied.TextKeyed := by
    simp [TextMap.TextKeyed, tidied, Filter.TextKeyed, Filter.ItemsTextKeyed, Filter.EntriesTextKeyed]
  have hformed : WellFormed tidied.fields := by
    refine ⟨List.cons_ne_nil _ _, .inl (by decide), ?_, List.cons_ne_nil _ _⟩
    simp only [tidied, List.forall_mem_cons]
    exact ⟨fun _ => ⟨.put, rfl, _, rfl⟩, fun _ => ⟨.unset, rfl, .inr ⟨_, rfl⟩⟩,
      fun _ => ⟨.increase, rfl, _, rfl⟩, List.forall_mem_nil _⟩
  obtain ⟨u', s, k, happly, hcompile⟩ := ((hfollows tidied).2.1 hkeys).mpr hformed
  obtain ⟨hsql, values, hvalues, hparams⟩ := (hfollows tidied).2.2.1 u' s k happly hcompile
  refine ⟨⟨u', s, k, happly, hcompile, hsql.trans rfl, ?_⟩, (hfollows halfMarked).2.2.2.2 ?_ ?_⟩
  · have hlist : (changes tidied.fields).filter hasValue =
        [⟨.put, .str "tags\x7b0\x7d", .list [.int 1, .null]⟩, ⟨.increase, .str "visits", .int 2⟩] := rfl
    rw [hlist] at hvalues
    obtain ⟨w, rest, hw, hrest, hsplit⟩ := List.forall₂_cons_left_iff.mp hvalues
    obtain ⟨x, none, hx, hnone, hlast⟩ := List.forall₂_cons_left_iff.mp hrest
    obtain rfl := List.forall₂_nil_left_iff.mp hnone
    have hstored : Value.stored (.list [.int 1, .null]) = .ok (.str "[1,null]") := rfl
    obtain rfl := Except.ok.inj (hstored.symm.trans (Value.stored_eq_ok_iff.mpr hw))
    rw [hparams, hsplit, hlast, show x = .int 2 from hx]
    rfl
  · exact ⟨"$set", by decide, by decide⟩
  · exact ⟨"b", by decide, by decide⟩

end Update

end BoundQuery
