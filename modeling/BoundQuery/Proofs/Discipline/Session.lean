import BoundQuery.Proofs.Discipline.Clause
import BoundQuery.Proofs.Run

/-! Calls whose text may be taken as it was given leave builders of which that is true, and so do
the actions of a session for all that it has. -/
namespace BoundQuery

section Filters

variable {p : String → Prop} {a b : Accumulated}

theorem Filter.childrenNames_append {first second : List Value} :
    ChildrenNames p (first ++ second) ↔ ChildrenNames p first ∧ ChildrenNames p second := by
  induction first with
  | nil => simp [ChildrenNames]
  | cons child rest ih => simp [ChildrenNames, ih, and_assoc]

theorem Accumulated.names_several {trees : List Entries} :
    Filter.Names p (several trees).toTree ↔ Filter.ChildrenNames p (trees.map .map) := by
  have hmark : (Value.str "$and").operator? = some "$and" := by decide
  simp only [toTree, Filter.Names, Filter.EntriesNames, Filter.EntryNames.eq_def, hmark, and_true]

theorem Accumulated.names_add {tree : Entries} (ha : Filter.Names p a.toTree)
    (ht : Filter.EntriesNames p tree) : Filter.Names p (a.add tree).toTree := by
  cases tree with
  | nil => simpa using ha
  | cons e es =>
    cases a with
    | empty => exact ht
    | single first =>
      exact names_several.mpr ⟨ha, ht, trivial⟩
    | several trees =>
      refine names_several.mpr ?_
      rw [List.map_append, Filter.childrenNames_append]
      exact ⟨names_several.mp ha, ht, trivial⟩

theorem Accumulated.names_query {kind : StatementKind} {tree : Value}
    (h : a.query kind tree = .ok b) (ha : Filter.Names p a.toTree) (ht : Filter.Names p tree) :
    Filter.Names p b.toTree := by
  cases tree with
  | map es =>
    obtain rfl := Except.ok.inj h
    exact names_add ha ht
  | _ => cases h

end Filters

theorem Delete.after_apply_rawText {p : String → Prop} {d : Delete} (hd : d.RawText p)
    {call : Delete.Call} (hc : call.RawText p) : (after (Delete.apply call) d).RawText p := by
  cases call with
  | query tree =>
    rw [Delete.apply, after_get_bind]
    refine after_read_keeps hd fun filter hfilter => ?_
    exact { hd with filter := Accumulated.names_query hfilter hd.filter hc }
  | single => exact { hd with }

theorem Update.after_apply_rawText {p : String → Prop} {u : Update} (hu : u.RawText p)
    {call : Update.Call} (hc : call.RawText p) : (after (Update.apply call) u).RawText p := by
  cases call with
  | query tree =>
    rw [Update.apply, after_get_bind]
    refine after_read_keeps hu fun filter hfilter => ?_
    exact { hu with filter := Accumulated.names_query hfilter hu.filter hc }
  | update v =>
    rw [Update.apply, after_get_bind]
    refine after_read_keeps hu fun payload hpayload => ?_
    refine { hu with payload := fun given hgiven => ?_ }
    obtain rfl := Option.some.inj hgiven
    exact hc u.idField payload hpayload
  | single => exact { hu with }

theorem Insert.after_apply_rawText {p : String → Prop} {i : Insert} (hi : i.RawText p)
    {call : Insert.Call} (hc : call.RawText p) : (after (Insert.apply call) i).RawText p := by
  cases call with
  | insertOne v =>
    refine after_read_keeps hi fun document hdocument => ?_
    refine { hi with documents := fun given hgiven => ?_ }
    obtain rfl := List.mem_singleton.mp hgiven
    exact hc given hdocument
  | insertMany v =>
    cases hv : v.sequence? with
    | none =>
      simp only [Insert.apply, hv, after_throw]
      exact hi
    | some items =>
      simp only [Insert.apply, hv]
      refine after_read_keeps hi fun documents hdocuments => ?_
      exact { hi with documents := hc items documents hv hdocuments }
  | upsert enable fields =>
    have hswitched : Insert.RawText p { i with upsert := enable.truthy } := { hi with }
    unfold Insert.apply
    rw [after_modify_bind]
    split
    · exact { hswitched with upsertFields := by simp }
    · refine after_read_keeps hswitched fun items hitems => ?_
      refine { hswitched with upsertFields := fun given hgiven => ?_ }
      obtain rfl := Option.some.inj hgiven
      exact hc items hitems

theorem Aggregate.after_addStage_rawText {p : String → Prop} {a : Aggregate} (ha : a.RawText p)
    {v : Value} (h : ∀ stage, Stage.parse v = .ok stage → stage.RawText p) :
    (after (addStage v) a).RawText p := by
  refine after_read_keeps ha fun stage hstage => ?_
  refine { ha with stages := fun given hgiven => ?_ }
  rcases List.mem_append.mp hgiven with hgiven | hgiven
  · exact ha.stages given hgiven
  · obtain rfl := List.mem_singleton.mp hgiven
    exact h given hstage

theorem Aggregate.after_apply_rawText {p : String → Prop} {a : Aggregate} (ha : a.RawText p)
    {call : Aggregate.Call} (hc : call.RawText p) : (after (Aggregate.apply call) a).RawText p := by
  cases call with
  | add v => exact after_addStage_rawText ha hc
  | named kind content => exact after_addStage_rawText ha hc
  | project fields =>
    refine after_read_keeps ha fun content hcontent => ?_
    exact after_addStage_rawText ha fun stage hstage =>
      hc stage (except_bind_eq_ok_iff.mpr ⟨content, hcontent, hstage⟩)
  | lookup spec more =>
    refine after_read_keeps ha fun content hcontent => ?_
    exact after_addStage_rawText ha fun stage hstage =>
      hc stage (except_bind_eq_ok_iff.mpr ⟨content, hcontent, hstage⟩)

variable {D : Discipline}

/-- A join that is read is the one given, but for its type. -/
theorem Join.ofEntries_normalType (es : Entries) : ofEntries normalType es =
    (ofEntries id es).map fun j => { j with type := normalType j.type } := by
  have htype : typeSlot.read es (fun v => (Reading.text v).map normalType) (some "INNER JOIN") =
      (typeSlot.read es (fun v => (Reading.text v).map id) (some "INNER JOIN")).map normalType := by
    unfold Slot.read
    cases typeSlot.find? es with
    | none => rfl
    | some found =>
      dsimp only
      cases Reading.text found.2 <;> rfl
  unfold ofEntries
  rw [htype]
  generalize typeSlot.read es (fun v => (Reading.text v).map id) (some "INNER JOIN") = type
  generalize tableSlot.read es Reading.text none = table
  generalize aliasSlot.read es Reading.optionalText (some none) = shortName
  generalize onSlot.read es Reading.text none = on
  generalize Slot.leftovers [tableSlot, aliasSlot, typeSlot, onSlot] es = leftovers
  cases table <;> cases shortName <;> cases type <;> cases on <;> cases leftovers <;> rfl

theorem Join.RawText.withType {p : String → Prop} {j : Join} (h : j.RawText p) {type : String}
    (ht : p type) : RawText p { j with type } := { h with type := ht }

theorem Join.read_rawText {v : Value} {j : Join} (hj : read v = .ok j)
    (h : ∀ given, asGiven v = .ok given → given.RawText D.given) : j.RawText D.given := by
  cases v with
  | map es =>
    rw [read, ofEntries_normalType] at hj
    cases hgiven : ofEntries id es with
    | error issues =>
      rw [hgiven] at hj
      cases hj
    | ok given =>
      simp only [hgiven, Except.map, Except.ok.injEq] at hj
      subst hj
      have hraw := h given hgiven
      exact hraw.withType (Discipline.given_normalType hraw.type)
  | record model fields =>
    cases model with
    | stage kind => cases hj
    | join => exact h j hj
  | _ => cases hj

theorem Select.after_addJoins_rawText {vs : List Value} {q : Select} (hq : q.RawText D.given)
    (h : ∀ v ∈ vs, ∀ j, Join.asGiven v = .ok j → j.RawText D.given) :
    (after (addJoins vs) q).RawText D.given := by
  induction vs generalizing q with
  | nil => exact hq
  | cons v vs ih =>
    refine after_read_keeps hq fun j hj => ?_
    rw [after_modify_bind]
    refine ih ?_ fun w hw => h w (List.mem_cons_of_mem _ hw)
    have hread : Join.read v = .ok j := by
      unfold readJoin at hj
      split at hj
      · rename_i hread
        rw [hread, Except.ok.inj hj]
      · cases hj
    refine { hq with joins := fun given hgiven => ?_ }
    rcases List.mem_append.mp hgiven with hgiven | hgiven
    · exact hq.joins given hgiven
    · obtain rfl := List.mem_singleton.mp hgiven
      exact Join.read_rawText hread (h v List.mem_cons_self)

theorem Select.after_apply_rawText {q : Select} (hq : q.RawText D.given) {call : Select.Call}
    (hc : call.RawText D.given) : (after (Select.apply call) q).RawText D.given := by
  cases call with
  | query tree =>
    rw [Select.apply, after_get_bind]
    refine after_read_keeps hq fun filter hfilter => ?_
    exact { hq with filter := Accumulated.names_query hfilter hq.filter hc }
  | project fields =>
    refine after_read_keeps hq fun columns hcolumns => ?_
    refine { hq with projection := fun given hgiven => ?_ }
    obtain rfl := Option.some.inj hgiven
    exact hc columns hcolumns
  | join joins =>
    exact after_read_keeps hq fun items hitems => after_addJoins_rawText hq (hc items hitems)
  | sort v =>
    refine after_read_keeps hq fun order horder => ?_
    refine { hq with order := fun given hgiven => ?_ }
    obtain rfl := Option.some.inj hgiven
    exact hc order horder
  | limit v => exact after_read_keeps hq fun n _ => { hq with }
  | offset v => exact after_read_keeps hq fun n _ => { hq with }

namespace Builder

theorem after_apply_rawText {b : Builder} (hb : b.RawText D.given) {call : Call}
    (hc : call.RawText D.given) : (after (apply call) b).RawText D.given := by
  cases b with
  | select q =>
    cases call with
    | select c =>
      have h := after_change .select q (Select.apply c) (.select q)
      exact h ▸ Select.after_apply_rawText hb hc
    | _ => exact hb
  | update u =>
    cases call with
    | update c =>
      have h := after_change .update u (Update.apply c) (.update u)
      exact h ▸ Update.after_apply_rawText hb hc
    | _ => exact hb
  | delete d =>
    cases call with
    | delete c =>
      have h := after_change .delete d (Delete.apply c) (.delete d)
      exact h ▸ Delete.after_apply_rawText hb hc
    | _ => exact hb
  | insert i =>
    cases call with
    | insert c =>
      have h := after_change .insert i (Insert.apply c) (.insert i)
      exact h ▸ Insert.after_apply_rawText hb hc
    | _ => exact hb
  | aggregate a =>
    cases call with
    | aggregate c =>
      have h := after_change .aggregate a (Aggregate.apply c) (.aggregate a)
      exact h ▸ Aggregate.after_apply_rawText hb hc
    | _ => exact hb

theorem check_table_eq_ok {kind : StatementKind} {v : Value} {s : String}
    (h : Check.table kind v = .ok s) : v = .str s := by
  cases v with
  | str t =>
    simp only [Check.table] at h
    split at h
    · cases h
    · rw [Except.ok.inj h]
  | _ => cases h

theorem start_rawText {kind : StatementKind} {table idField pipeline : Value}
    {registry : RegistryId} {b : Builder} (hb : start kind table registry idField pipeline = .ok b)
    (h : StartText D.given table idField pipeline) : b.RawText D.given := by
  have htable : ∀ {kind : StatementKind} {name : String}, Check.table kind table = .ok name →
      D.given name := by
    intro kind name hname
    have htext := h.table
    rwa [check_table_eq_ok hname, Value.text_str] at htext
  cases kind with
  | select =>
    obtain ⟨name, hname, hb⟩ := except_bind_eq_ok_iff.mp hb
    obtain rfl := Except.ok.inj hb
    exact ⟨htable hname, trivial, by simp, by simp, by simp⟩
  | update =>
    obtain ⟨name, hname, hb⟩ := except_bind_eq_ok_iff.mp hb
    obtain rfl := Except.ok.inj hb
    refine ⟨htable hname, trivial, ?_, by simp⟩
    dsimp only
    split
    · exact h.idField
    · exact D.given_fixed (by decide)
  | delete =>
    obtain ⟨name, hname, hb⟩ := except_bind_eq_ok_iff.mp hb
    obtain rfl := Except.ok.inj hb
    exact ⟨htable hname, trivial⟩
  | insert =>
    obtain ⟨name, hname, hb⟩ := except_bind_eq_ok_iff.mp hb
    obtain rfl := Except.ok.inj hb
    exact ⟨htable hname, by simp, by simp⟩
  | aggregate =>
    obtain ⟨a, ha, hb⟩ := except_bind_eq_ok_iff.mp hb
    obtain rfl := Except.ok.inj hb
    obtain ⟨name, hname, ha⟩ := except_bind_eq_ok_iff.mp ha
    split at ha
    · obtain ⟨stages, hstages, ha⟩ := except_bind_eq_ok_iff.mp ha
      obtain rfl := Except.ok.inj ha
      exact ⟨htable hname, h.stages stages hstages⟩
    · obtain rfl := Except.ok.inj ha
      exact ⟨htable hname, by simp⟩

end Builder

/-- The text of a builder may be taken as it was given; what is fixed keeps to the discipline. -/
def Source.Keeps (D : Discipline) : Source → Prop
  | .builder b => b.RawText D.given
  | .fixed s => ∀ d, D.holds d d s.sql s.params

namespace Session

def Action.Keeps (D : Discipline) : Action → Prop
  | .addStatement s => ∀ d, D.holds d d s.sql s.params
  | .start _ table _ idField pipeline => Builder.StartText D.given table idField pipeline
  | .call _ c => c.RawText D.given
  | _ => True

variable {w : Workspace}

theorem addSource_keeps (hw : ∀ s ∈ w.sources, s.Keeps D) {source : Source} (hs : source.Keeps D) :
    ∀ s ∈ (after (addSource source) w).sources, s.Keeps D := by
  intro given hgiven
  rcases List.mem_append.mp hgiven with hgiven | hgiven
  · exact hw given hgiven
  · obtain rfl := List.mem_singleton.mp hgiven
    exact hs

theorem call_keeps (hw : ∀ s ∈ w.sources, s.Keeps D) (id : Nat) {c : Builder.Call}
    (hc : c.RawText D.given) : ∀ s ∈ (after (call id c) w).sources, s.Keeps D := by
  by_cases hbuilder : ∃ b, w.sources[id]? = some (.builder b)
  · obtain ⟨b, hb⟩ := hbuilder
    rw [after_call hb]
    intro given hgiven
    rcases List.mem_or_eq_of_mem_set hgiven with hgiven | rfl
    · exact hw given hgiven
    · exact Builder.after_apply_rawText (hw _ (List.mem_of_getElem? hb)) hc
  · rw [after_call_of_ne fun b hb => hbuilder ⟨b, hb⟩]
    exact hw

theorem perform_keeps (hw : ∀ s ∈ w.sources, s.Keeps D) {action : Action} (ha : action.Keeps D) :
    ∀ s ∈ (perform action w).sources, s.Keeps D := by
  cases action with
  | addRegistry => exact hw
  | register id operator handler => cases handler <;> exact hw
  | addStatement s => exact addSource_keeps hw ha
  | start kind table registry idField pipeline =>
    refine after_read_keeps (I := fun v : Workspace => ∀ s ∈ v.sources, s.Keeps D) hw fun b hb => ?_
    exact addSource_keeps hw (Builder.start_rawText hb ha)
  | wrap t => exact hw
  | call id c => exact call_keeps hw id ha
  | compile id => exact congrArg Catalogue.sources (after_ofWork _ w) ▸ hw
  | embed id => exact congrArg Catalogue.sources (after_ofWork _ w) ▸ hw
  | remembered id => exact congrArg Catalogue.sources (after_ofWork _ w) ▸ hw

/-- After actions that keep to a discipline, all sources do. -/
theorem run_sources_keep {actions : List Action} (h : ∀ action ∈ actions, action.Keeps D) :
    ∀ s ∈ (run actions {}).sources, s.Keeps D :=
  run_keeps (I := fun v : Workspace => ∀ s ∈ v.sources, s.Keeps D) (by simp)
    fun action ha _ hw => perform_keeps hw (h action ha)

end Session

end BoundQuery
