import BoundQuery.Proofs.Alike.Statement
import BoundQuery.Proofs.Run

/-! Calls that differ only in the values they give, made on builders that differ only in the values
they bind, leave builders of which the same is true. -/
namespace BoundQuery

/-- Both readings fail, or they give what is related. -/
inductive Reads {α β : Type} (P : α → β → Prop) : Except Error α → Except Error β → Prop
  | ok {a : α} {b : β} (related : P a b) : Reads P (.ok a) (.ok b)
  | error (e e' : Error) : Reads P (.error e) (.error e')

theorem Reads.refl {α : Type} (x : Except Error α) : Reads Eq x x := by
  cases x with
  | ok a => exact .ok rfl
  | error e => exact .error e e

theorem Reads.bind {α α' β β' : Type} {P : α → α' → Prop} {Q : β → β' → Prop} {x : Except Error α}
    {x' : Except Error α'} {f : α → Except Error β} {f' : α' → Except Error β'} (hx : Reads P x x')
    (hf : ∀ a b, P a b → Reads Q (f a) (f' b)) : Reads Q (x >>= f) (x' >>= f') := by
  cases hx with
  | ok related => exact hf _ _ related
  | error e e' => exact .error e e'

/-- Two readings leave what is related, if what goes on from them does. -/
theorem after_read_related {σ α β γ δ : Type} {R : σ → σ → Prop} {P : α → β → Prop} {s s' : σ}
    {x : Except Error α} {x' : Except Error β} {f : α → EStateM Error σ γ}
    {f' : β → EStateM Error σ δ} (hx : Reads P x x') (hs : R s s')
    (h : ∀ a b, P a b → R (after (f a) s) (after (f' b) s')) :
    R (after (liftM x >>= f) s) (after (liftM x' >>= f') s') := by
  cases hx with
  | ok related => exact h _ _ related
  | error e e' => exact hs

namespace Accumulated

open BoundQuery.Filter

theorem Alike.add {a a' : Accumulated} {es es' : Entries} (h : Alike a a')
    (hes : AlikeEntries es es') : Alike (a.add es) (a'.add es') := by
  cases hes with
  | nil => simpa using h
  | cons first rest =>
    cases h with
    | empty => exact .single (.cons first rest)
    | single tree => exact .several (.cons tree (.cons (.cons first rest) .nil))
    | several all => exact .several (List.rel_append all (.cons (.cons first rest) .nil))

/-- Filters that differ only in the values they bind, or the same value that is no filter. -/
inductive AlikeQuery : Value → Value → Prop
  | filter {tree tree' : Value} (filters : Filter.Alike tree tree') : AlikeQuery tree tree'
  | refused {v : Value} (kind : ∀ es, v ≠ .map es) : AlikeQuery v v

theorem Alike.query {a a' : Accumulated} {tree tree' : Value} (h : Alike a a')
    (kind : StatementKind) (htree : AlikeQuery tree tree') :
    Reads Alike (a.query kind tree) (a'.query kind tree') := by
  cases htree with
  | filter filters =>
    cases filters with
    | null => exact .error _ _
    | map entries => exact .ok (h.add entries)
  | refused hkind =>
    cases tree with
    | map es => exact absurd rfl (hkind es)
    | _ => exact .error _ _

end Accumulated

open Accumulated (AlikeQuery)

namespace Delete

inductive AlikeCall : Call → Call → Prop
  | query {tree tree' : Value} (trees : AlikeQuery tree tree') :
      AlikeCall (.query tree) (.query tree')
  | single : AlikeCall .single .single

theorem Alike.after_apply {d d' : Delete} {c c' : Call} (h : d.Alike d') (hc : AlikeCall c c') :
    (after (apply c) d).Alike (after (apply c') d') := by
  cases hc with
  | query trees =>
    rw [apply, apply, after_get_bind, after_get_bind]
    exact after_read_related (h.filter.query .delete trees) h fun _ _ hfilter =>
      { h with filter := hfilter }
  | single => exact { h with single := rfl }

end Delete

namespace Select

inductive AlikeCall : Call → Call → Prop
  | query {tree tree' : Value} (trees : AlikeQuery tree tree') :
      AlikeCall (.query tree) (.query tree')
  | same {c : Call} (other : ∀ tree, c ≠ .query tree) : AlikeCall c c

theorem Alike.after_addJoins {q q' : Select} (h : q.Alike q') (vs : List Value) :
    (after (addJoins vs) q).Alike (after (addJoins vs) q') := by
  induction vs generalizing q q' with
  | nil => exact h
  | cons v vs ih =>
    refine after_read_related (.refl (readJoin v)) h fun join join' hjoin => ?_
    subst hjoin
    rw [after_modify_bind, after_modify_bind]
    exact ih { h with joins := by rw [h.joins] }

theorem Alike.after_apply {q q' : Select} {c c' : Call} (h : q.Alike q') (hc : AlikeCall c c') :
    (after (apply c) q).Alike (after (apply c') q') := by
  cases hc with
  | query trees =>
    rw [apply, apply, after_get_bind, after_get_bind]
    exact after_read_related (h.filter.query .select trees) h fun _ _ hfilter =>
      { h with filter := hfilter }
  | same other =>
    cases c with
    | query tree => exact absurd rfl (other tree)
    | project v =>
      refine after_read_related (.refl (readProjection v)) h fun p p' hp => ?_
      exact { h with projection := congrArg some hp }
    | join v =>
      refine after_read_related (.refl (joinItems v)) h fun items items' hitems => ?_
      subst hitems
      exact h.after_addJoins items
    | sort v =>
      refine after_read_related (.refl (readOrder v)) h fun order order' horder => ?_
      exact { h with order := congrArg some horder }
    | limit v =>
      refine after_read_related (.refl (Check.count .select "limit" v)) h fun n n' hn => ?_
      exact { h with limit := congrArg some hn }
    | offset v =>
      refine after_read_related (.refl (Check.count .select "offset" v)) h fun n n' hn => ?_
      exact { h with offset := congrArg some hn }

end Select

def Value.HoldsRows (v : Value) (rows : List Entries) : Prop := v.sequence? = some (rows.map .map)

namespace Update

/-- Updates that assign the same fields in the same ways, to any values. -/
inductive AlikePayload : Value → Value → Prop
  | same (v : Value) : AlikePayload v v
  | fields {es es' : Entries} (names : Entries.keys es = Entries.keys es')
      (plain : ∀ key ∈ Entries.keys es, key.isOperator = false) : AlikePayload (.map es) (.map es')
  | operations {es es' : Entries} (all : List.Forall₂ AlikeOperation es es') :
      AlikePayload (.map es) (.map es')
  | rows {v v' : Value} {rows rows' : List Entries} (sequence : v.HoldsRows rows)
      (sequence' : v'.HoldsRows rows') (columns : rows.map Entries.keys = rows'.map Entries.keys) :
      AlikePayload v v'

theorem keys_eq_of_operations {es es' : Entries} (h : List.Forall₂ AlikeOperation es es') :
    Entries.keys es = Entries.keys es' := by
  induction h with
  | nil => rfl
  | cons hfirst _ ih => cases hfirst <;> simpa [Entries.keys] using ih

theorem alikeOperations_refl (es : Entries) : List.Forall₂ AlikeOperation es es :=
  List.forall₂_same.mpr fun e _ => .same e

theorem readOperations_alike {es es' : Entries} (hkeys : Entries.keys es = Entries.keys es')
    (h : (∀ key ∈ Entries.keys es, key.isOperator = true) → List.Forall₂ AlikeOperation es es') :
    Reads (List.Forall₂ AlikeOperation) (readOperations es) (readOperations es') := by
  have hempty : es.isEmpty = (Entries.keys es).isEmpty := by cases es <;> rfl
  have hempty' : es'.isEmpty = (Entries.keys es').isEmpty := by cases es' <;> rfl
  have hall : ∀ es : Entries, (es.all fun e => e.1.isOperator) =
      (Entries.keys es).all Value.isOperator := by
    intro es
    rw [Entries.keys, List.all_map, Function.comp_def]
  have hany : ∀ es : Entries, (es.any fun e => e.1.isOperator) =
      (Entries.keys es).any Value.isOperator := by
    intro es
    rw [Entries.keys, List.any_map, Function.comp_def]
  unfold readOperations
  rw [hempty, hempty', hall, hall, hany, hany, ← hkeys]
  split
  · exact .error _ _
  · split
    · rename_i hoperators
      exact .ok (h (by simpa using hoperators))
    · split
      · exact .error _ _
      · exact .ok (.cons (.assigned hkeys) .nil)

theorem readRows_alike {idField : Value} {rows rows' : List Entries}
    (h : rows.map Entries.keys = rows'.map Entries.keys) (index : Nat) :
    Reads (fun rows rows' => rows.map Entries.keys = rows'.map Entries.keys)
      (readRows idField index (rows.map .map)) (readRows idField index (rows'.map .map)) := by
  induction rows generalizing rows' index with
  | nil =>
    obtain rfl := List.map_eq_nil_iff.mp h.symm
    exact .ok rfl
  | cons row rest ih =>
    obtain ⟨row', rest', rfl, hrow, hrest⟩ := List.map_eq_cons_iff.mp h.symm
    have hhas : Entries.has row idField = Entries.has row' idField := by
      rw [Entries.has_eq_any, Entries.has_eq_any, hrow]
    simp only [List.map_cons, readRows, hhas]
    split
    · exact .error _ _
    · split
      · refine (ih hrest.symm (index + 1)).bind fun more more' hmore => .ok ?_
        rw [List.map_cons, List.map_cons, hrow, hmore]
      · exact .error _ _

theorem readPayload_alike {v v' : Value} (h : AlikePayload v v') (idField : Value) :
    Reads Payload.Alike (readPayload idField v) (readPayload idField v') := by
  cases h with
  | same =>
    cases readPayload idField v with
    | error e => exact .error e e
    | ok payload =>
      cases payload with
      | operations es => exact .ok (.operations (alikeOperations_refl es))
      | rows rows => exact .ok (.rows rfl)
  | @fields es es' names plain =>
    refine (readOperations_alike names fun hall => ?_).bind fun _ _ hes => .ok (.operations hes)
    cases es with
    | nil =>
      obtain rfl := List.map_eq_nil_iff.mp names.symm
      exact .nil
    | cons e rest =>
      have hkey : e.1 ∈ Entries.keys (e :: rest) := List.mem_cons_self
      cases (plain _ hkey).symm.trans (hall _ hkey)
  | operations all =>
    exact (readOperations_alike (keys_eq_of_operations all) fun _ => all).bind
      fun _ _ hes => .ok (.operations hes)
  | @rows _ _ rows rows' sequence sequence' columns =>
    have hread : ∀ {v : Value} {rows : List Entries}, v.HoldsRows rows →
        readPayload idField v = (do return .rows (← readRows idField 0 (rows.map .map))) := by
      intro v rows hrows
      cases v with
      | list items =>
        obtain rfl := Option.some.inj hrows
        rfl
      | tuple items =>
        obtain rfl := Option.some.inj hrows
        rfl
      | _ => cases hrows
    rw [hread sequence, hread sequence']
    exact (readRows_alike columns 0).bind fun _ _ hrows => .ok (.rows hrows)

inductive AlikeCall : Call → Call → Prop
  | query {tree tree' : Value} (trees : AlikeQuery tree tree') :
      AlikeCall (.query tree) (.query tree')
  | update {v v' : Value} (payloads : AlikePayload v v') : AlikeCall (.update v) (.update v')
  | single : AlikeCall .single .single

theorem Alike.after_apply {u u' : Update} {c c' : Call} (h : u.Alike u') (hc : AlikeCall c c') :
    (after (apply c) u).Alike (after (apply c') u') := by
  cases hc with
  | query trees =>
    rw [apply, apply, after_get_bind, after_get_bind]
    exact after_read_related (h.filter.query .update trees) h fun _ _ hfilter =>
      { h with filter := hfilter }
  | @update v v' payloads =>
    have hread : Reads Payload.Alike (readPayload u.idField v) (readPayload u'.idField v') :=
      h.idField ▸ readPayload_alike payloads u.idField
    rw [apply, apply, after_get_bind, after_get_bind]
    exact after_read_related hread h fun _ _ hpayload => { h with payload := .some hpayload }
  | single => exact { h with single := rfl }

end Update

namespace Insert

inductive AlikeDocument : Value → Value → Prop
  | same (v : Value) : AlikeDocument v v
  | columns {es es' : Entries} (names : Entries.keys es = Entries.keys es') :
      AlikeDocument (.map es) (.map es')

inductive AlikeDocuments : Value → Value → Prop
  | same (v : Value) : AlikeDocuments v v
  | rows {v v' : Value} {rows rows' : List Entries} (sequence : v.HoldsRows rows)
      (sequence' : v'.HoldsRows rows') (columns : rows.map Entries.keys = rows'.map Entries.keys) :
      AlikeDocuments v v'

inductive AlikeCall : Call → Call → Prop
  | insertOne {v v' : Value} (document : AlikeDocument v v') :
      AlikeCall (.insertOne v) (.insertOne v')
  | insertMany {v v' : Value} (documents : AlikeDocuments v v') :
      AlikeCall (.insertMany v) (.insertMany v')
  | upsert (enable fields : Value) : AlikeCall (.upsert enable fields) (.upsert enable fields)

theorem readDocument_alike {v v' : Value} (h : AlikeDocument v v') :
    Reads (fun es es' => Entries.keys es = Entries.keys es') (readDocument v) (readDocument v') := by
  cases h with
  | same =>
    cases v with
    | map es => exact .ok rfl
    | _ => exact .error _ _
  | columns names => exact .ok names

theorem readDocuments_eq (index : Nat) (rows : List Entries) :
    readDocuments index (rows.map .map) = .ok rows := by
  induction rows generalizing index with
  | nil => rfl
  | cons row rest ih =>
    rw [List.map_cons, readDocuments, ih]
    rfl

theorem Alike.after_apply {i i' : Insert} {c c' : Call} (h : i.Alike i') (hc : AlikeCall c c') :
    (after (apply c) i).Alike (after (apply c') i') := by
  cases hc with
  | insertOne document =>
    exact after_read_related (readDocument_alike document) h fun _ _ hkeys =>
      { h with documents := congrArg (fun keys => [keys]) hkeys }
  | @insertMany v v' documents =>
    cases documents with
    | same =>
      rw [apply]
      cases v.sequence? with
      | none => exact h
      | some items =>
        refine after_read_related (.refl (readDocuments 0 items)) h fun ds ds' hds => ?_
        exact { h with documents := congrArg (List.map Entries.keys) hds }
    | rows sequence sequence' columns =>
      rw [apply, apply, sequence, sequence']
      dsimp only
      rw [readDocuments_eq, readDocuments_eq]
      exact { h with documents := columns }
  | upsert enable fields =>
    by_cases hfields : fields = .null
    · subst hfields
      exact { h with upsert := rfl, upsertFields := rfl }
    · have henabled : Alike { i with upsert := enable.truthy } { i' with upsert := enable.truthy } :=
        { h with upsert := rfl }
      rw [apply, after_modify_bind, after_modify_bind]
      · refine after_read_related (.refl fields.items) henabled fun vs vs' hvs => ?_
        exact { henabled with upsertFields := congrArg some hvs }
      · exact hfields

end Insert

namespace Builder

inductive AlikeCall : Call → Call → Prop
  | select {c c' : Select.Call} (calls : Select.AlikeCall c c') : AlikeCall (.select c) (.select c')
  | update {c c' : Update.Call} (calls : Update.AlikeCall c c') : AlikeCall (.update c) (.update c')
  | delete {c c' : Delete.Call} (calls : Delete.AlikeCall c c') : AlikeCall (.delete c) (.delete c')
  | insert {c c' : Insert.Call} (calls : Insert.AlikeCall c c') : AlikeCall (.insert c) (.insert c')
  | aggregate (c : Aggregate.Call) : AlikeCall (.aggregate c) (.aggregate c)

/-- What one call keeps. A call for another kind of builder changes nothing. -/
theorem Alike.after_apply {b b' : Builder} {c c' : Call} (h : Alike b b') (hc : AlikeCall c c') :
    Alike (after (apply c) b) (after (apply c') b') := by
  cases h with
  | @select s s' h =>
    cases hc with
    | @select c c' calls =>
      have hafter := after_change .select s (Select.apply c) (.select s)
      have hafter' := after_change .select s' (Select.apply c') (.select s')
      exact hafter ▸ hafter' ▸ .select (h.after_apply calls)
    | _ => exact .select h
  | @update u u' h =>
    cases hc with
    | @update c c' calls =>
      have hafter := after_change .update u (Update.apply c) (.update u)
      have hafter' := after_change .update u' (Update.apply c') (.update u')
      exact hafter ▸ hafter' ▸ .update (h.after_apply calls)
    | _ => exact .update h
  | @delete d d' h =>
    cases hc with
    | @delete c c' calls =>
      have hafter := after_change .delete d (Delete.apply c) (.delete d)
      have hafter' := after_change .delete d' (Delete.apply c') (.delete d')
      exact hafter ▸ hafter' ▸ .delete (h.after_apply calls)
    | _ => exact .delete h
  | @insert i i' h =>
    cases hc with
    | @insert c c' calls =>
      have hafter := after_change .insert i (Insert.apply c) (.insert i)
      have hafter' := after_change .insert i' (Insert.apply c') (.insert i')
      exact hafter ▸ hafter' ▸ .insert (h.after_apply calls)
    | _ => exact .insert h

theorem Alike.run {b b' : Builder} {calls calls' : List Call} (h : Alike b b')
    (hcalls : List.Forall₂ AlikeCall calls calls') :
    Alike (Builder.run calls b) (Builder.run calls' b') := by
  induction hcalls generalizing b b' with
  | nil => exact h
  | cons hcall _ ih => exact ih (h.after_apply hcall)

/-- A new builder that is no pipeline binds nothing yet. -/
theorem Alike.of_start {kind : StatementKind} {table idField pipeline : Value}
    {registry : RegistryId} {b : Builder} (hkind : kind ≠ .aggregate)
    (h : start kind table registry idField pipeline = .ok b) : Alike b b := by
  cases kind with
  | aggregate => exact absurd rfl hkind
  | insert =>
    obtain ⟨name, -, h⟩ := except_bind_eq_ok_iff.mp h
    obtain rfl := Except.ok.inj h
    exact .insert ⟨rfl, rfl, rfl, rfl⟩
  | select =>
    obtain ⟨name, -, h⟩ := except_bind_eq_ok_iff.mp h
    obtain rfl := Except.ok.inj h
    exact .select ⟨rfl, .empty, rfl, rfl, rfl, rfl, rfl⟩
  | update =>
    obtain ⟨name, -, h⟩ := except_bind_eq_ok_iff.mp h
    obtain rfl := Except.ok.inj h
    exact .update ⟨rfl, .empty, rfl, .none, rfl⟩
  | delete =>
    obtain ⟨name, -, h⟩ := except_bind_eq_ok_iff.mp h
    obtain rfl := Except.ok.inj h
    exact .delete ⟨rfl, .empty, rfl⟩

end Builder

namespace Catalogue

/-- Bound values have no part in the text. Filters that differ only in the values they bind, and
apply no operator with a handler, are compiled to the same condition and bind as many values. So
are the statements of builders to which calls give such filters, and any other values to assign
or to insert. -/
theorem text_independent_of_bound_values (c : Catalogue) (registry : RegistryId) :
    (∀ tree tree', Filter.Alike tree tree' → Filter.Unplugged (c.scope registry) tree →
      Filter.Unplugged (c.scope registry) tree' → ∀ context d d' s s' k k',
      Filter.compile (c.scope registry) context tree d = .ok s k →
      Filter.compile (c.scope registry) context tree' d' = .ok s' k' →
      s = s' ∧ ∃ vs ws, k.params = d.params ++ vs ∧ k'.params = d'.params ++ ws ∧
        vs.length = ws.length) ∧
    ∀ kind table idField pipeline b, kind ≠ .aggregate →
      Builder.start kind table registry idField pipeline = .ok b →
      ∀ calls calls', List.Forall₂ Builder.AlikeCall calls calls' →
      (Builder.run calls b).Unplugged (c.scope registry) →
      (Builder.run calls' b).Unplugged (c.scope registry) → ∀ j j' s s' k k',
      (Builder.run calls b).compile (c.scope registry) j = .ok s k →
      (Builder.run calls' b).compile (c.scope registry) j' = .ok s' k' →
      s.sql = s'.sql ∧ s.params.length = s'.params.length := by
  have hs := c.scope_steady registry
  constructor
  · intro tree tree' halike hu hu' context d d' s s' k k' h h'
    exact halike.compile_alike hs hu hu' h h'
  · intro kind table idField pipeline b hkind hstart calls calls' hcalls hb hb' j j' s s' k k' h h'
    have halike := (Builder.Alike.of_start hkind hstart).run hcalls
    have hstatements := halike.compile_alike hs hb hb' h h'
    exact ⟨hstatements.sql, hstatements.params⟩

/-- What an honest user and one that tries to break out of a value may ask for. -/
def honestFilter : Value :=
  .map [(.str "name", .str "ann"), (.str "age", .map [(.str "$in", .list [.int 1, .int 2]),
    (.str "$not", .str "x")])]

def hostileFilter : Value :=
  .map [(.str "name", .str "' OR 1=1 --"), (.str "age", .map [(.str "$in", .tuple [.null, .list []]),
    (.str "$not", .pattern "?")])]

theorem honestFilter_alike : Filter.Alike honestFilter hostileFilter := by
  have hin : (Value.str "$in").operator? = some "$in" := by decide
  have hnot : (Value.str "$not").operator? = some "$not" := by decide
  have hitem : ∀ v w : Value, v.isSubquery = false → w.isSubquery = false → Filter.AlikeItem v w :=
    fun _ _ hv hw => .inr ⟨hv, hw⟩
  refine .map (.cons (.literal (by decide) rfl rfl rfl rfl) (.cons (.operators (by decide) ?_) .nil))
  refine .operator hin rfl rfl rfl (.members rfl rfl ?_) (.operator hnot rfl rfl rfl ?_ .nil)
  · exact .cons (hitem _ _ rfl rfl) (.cons (hitem _ _ rfl rfl) .nil)
  · exact .pattern rfl rfl

def promotion (filter role : Value) : Builder :=
  Builder.run [.update (.query filter), .update (.update (.map [(.str "role", role)]))]
    (.update { table := "t" })

theorem hostile_values_are_bound :
    (∃ s k k', Filter.compile (({} : Catalogue).scope 0) "root" honestFilter {} = .ok s k ∧
      Filter.compile (({} : Catalogue).scope 0) "root" hostileFilter {} = .ok s k') ∧
    ∃ s s' k k',
      (promotion honestFilter (.str "user")).compile (({} : Catalogue).scope 0) {} = .ok s k ∧
      (promotion hostileFilter (.map [(.str "$inc", .int 1)])).compile
        (({} : Catalogue).scope 0) {} = .ok s' k' ∧
      s.sql = s'.sql ∧ s.params.length = s'.params.length := by
  obtain ⟨hfilters, hbuilders⟩ := text_independent_of_bound_values {} 0
  constructor
  · obtain ⟨s, k, h⟩ : ∃ s k, Filter.compile (({} : Catalogue).scope 0) "root" honestFilter {} =
      .ok s k := ⟨_, _, rfl⟩
    obtain ⟨s', k', h'⟩ : ∃ s k, Filter.compile (({} : Catalogue).scope 0) "root" hostileFilter {} =
      .ok s k := ⟨_, _, rfl⟩
    have htext := hfilters _ _ honestFilter_alike (fun _ _ => rfl) (fun _ _ => rfl) _ _ _ _ _ _ _ h h'
    obtain ⟨rfl, -⟩ := htext
    exact ⟨s, k, k', h, h'⟩
  · obtain ⟨s, k, h⟩ : ∃ s k, (promotion honestFilter (.str "user")).compile
      (({} : Catalogue).scope 0) {} = .ok s k := ⟨_, _, rfl⟩
    obtain ⟨s', k', h'⟩ : ∃ s k, (promotion hostileFilter (.map [(.str "$inc", .int 1)])).compile
      (({} : Catalogue).scope 0) {} = .ok s k := ⟨_, _, rfl⟩
    refine ⟨s, s', k, k', h, h', ?_⟩
    refine hbuilders .update (.str "t") .null .null _ nofun rfl _ _ ?_ ?_ ?_ _ _ _ _ _ _ h h'
    · refine .cons (.update (.query (.filter honestFilter_alike))) (.cons (.update (.update ?_)) .nil)
      exact .fields rfl (by decide)
    · exact fun _ _ _ _ => rfl
    · exact fun _ _ _ _ => rfl

/-- A sub-query is as true as `true`, but it is no bound value: after `$exists` it is written. -/
theorem exists_of_subquery_is_written :
    ∃ (c : Catalogue) (v w : Value), v.truthy = w.truthy ∧ ∃ s s' k k',
      Filter.compile (c.scope 0) "root" (.map [(.str "a", .map [(.str "$exists", v)])]) {} =
        .ok s k ∧
      Filter.compile (c.scope 0) "root" (.map [(.str "a", .map [(.str "$exists", w)])]) {} =
        .ok s' k' ∧ s = "a IS NOT NULL" ∧ s' = "a IN (SELECT * FROM t)" := by
  refine ⟨{ sources := [.builder (.select { table := "t" })], targets := [.source 0] },
    .bool true, .subquery ⟨0, ""⟩, rfl, _, _, _, _, rfl, rfl, ?_, ?_⟩
  · decide
  · decide

end Catalogue

end BoundQuery
