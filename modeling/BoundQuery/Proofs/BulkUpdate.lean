import BoundQuery.Proofs.Alike.Statement
import BoundQuery.Proofs.Run
import BoundQuery.Proofs.TextMap

/-! Updates by rows. Each column is assigned by cases of the identity: a database that takes the
first case which fits gives a record the value of the first row for it that has the column, and
leaves it alone where there is none. -/
namespace BoundQuery

/-- The value of a column by cases, from the values bound for it. The identity of the record is
given by what it equals. -/
def caseValue (equals : Value → Bool) (current : Value) : List Value → Value
  | identity :: v :: rest => if equals identity then v else caseValue equals current rest
  | _ => current

theorem exists_forall₂_iff {α β : Type} {R : α → β → Prop} {l : List α} :
    (∃ l', List.Forall₂ R l l') ↔ ∀ a ∈ l, ∃ b, R a b := by
  induction l with
  | nil => simp
  | cons a l ih =>
    rw [List.forall_mem_cons, ← ih]
    constructor
    · rintro ⟨l', h⟩
      cases h with
      | cons ha hl => exact ⟨⟨_, ha⟩, _, hl⟩
    · rintro ⟨⟨b, hb⟩, l', hl⟩
      exact ⟨b :: l', .cons hb hl⟩

namespace TextMap

variable {m : TextMap} {key : Value}

/-- Only texts are keys of the map. -/
theorem has_entries_iff : Entries.has m.entries key ↔ ∃ name ∈ m.names, key = .str name := by
  simp only [Entries.has_eq_any, keys_entries, List.any_map, List.any_eq_true, Function.comp_apply,
    Value.str_same_iff]

end TextMap

namespace Update

variable {id : String} {rows : List TextMap}

/-- Rows that are read carry the identity, and are taken as they are. -/
theorem readRows_eq_ok {idField : Value} {index : Nat} {read : List Entries}
    (h : readRows idField index (rows.map fun m => .map m.entries) = .ok read) :
    read = rows.map TextMap.entries ∧ ∀ m ∈ rows, ∃ name ∈ m.names, idField = .str name := by
  induction rows generalizing index read with
  | nil =>
    obtain rfl := Except.ok.inj h
    exact ⟨rfl, nofun⟩
  | cons m rows ih =>
    rw [List.map_cons, readRows] at h
    split at h
    · cases h
    · split at h
      · rename_i hhas
        obtain ⟨rest, hrest, h⟩ := except_bind_eq_ok_iff.mp h
        obtain rfl := Except.ok.inj h
        obtain ⟨rfl, hrows⟩ := ih hrest
        exact ⟨rfl, List.forall_mem_cons.mpr ⟨TextMap.has_entries_iff.mp hhas, hrows⟩⟩
      · cases h

def assigned (id : String) (rows : List TextMap) : List String :=
  ((rows.flatMap TextMap.names).filter (· ≠ id)).eraseDups

theorem rowColumns_eq_assigned :
    rowColumns (.str id) (rows.map TextMap.entries) = (assigned id rows).map .str := by
  have hkeys : (rows.map TextMap.entries).flatMap Entries.keys =
      (rows.flatMap TextMap.names).map .str := by
    simp only [List.flatMap_map, TextMap.keys_entries, List.map_flatMap]
  have hfilter : ((fun key : Value => !key.equals (.str id)) ∘ Value.str) =
      fun name => decide (name ≠ id) := by
    funext name
    by_cases hname : name = id
    · simp [hname, Value.equals, Value.same, Value.isNaN]
    · simp [hname, Value.equals, Value.same]
  rw [rowColumns, hkeys, List.filter_map, hfilter, Value.distinct_map_str, assigned]

theorem mem_assigned {name : String} :
    name ∈ assigned id rows ↔ name ≠ id ∧ ∃ m ∈ rows, name ∈ m.names := by
  simp [assigned, List.mem_eraseDups, and_comm]

def firstRow? (id column : String) (equals : Value → Bool) (rows : List TextMap) : Option TextMap :=
  rows.find? fun m => (m.get? column).isSome && (m.get? id).any equals

/-- The values are such that each record, by what its identity equals, gets the stored form of what
the first row for it has in the column, or keeps its current value if there is no such row. -/
def Assigns (id column : String) (rows : List TextMap) (values : List Value) : Prop :=
  ∀ equals current, match firstRow? id column equals rows with
    | some m => ∃ v, m.get? column = some v ∧ v.StoredAs (caseValue equals current values)
    | none => caseValue equals current values = current

section Cases

variable {column : String} {values : List Value}

/-- A row without the column has no part in the cases. -/
theorem Assigns.cons_absent {m : TextMap} (hm : m.get? column = none)
    (h : Assigns id column rows values) : Assigns id column (m :: rows) values := by
  intro equals current
  have hfirst : firstRow? id column equals (m :: rows) = firstRow? id column equals rows := by
    simp [firstRow?, hm]
  rw [hfirst]
  exact h equals current

/-- A row with the column is the one for its identity, before all later ones. -/
theorem Assigns.cons_present {m : TextMap} {identity v w : Value} (hid : m.get? id = some identity)
    (hm : m.get? column = some v) (hw : v.StoredAs w) (h : Assigns id column rows values) :
    Assigns id column (m :: rows) (identity :: w :: values) := by
  intro equals current
  rw [caseValue]
  by_cases hequals : equals identity
  · have hfirst : firstRow? id column equals (m :: rows) = some m := by
      simp [firstRow?, hm, hid, hequals]
    rw [hfirst, if_pos hequals]
    exact ⟨v, hm, hw⟩
  · have hfirst : firstRow? id column equals (m :: rows) = firstRow? id column equals rows := by
      simp [firstRow?, hid, hequals]
    rw [hfirst, if_neg hequals]
    exact h equals current

theorem caseParams_assigns (hid : ∀ m ∈ rows, id ∈ m.names)
    (h : caseParams (.str id) (.str column) (rows.map TextMap.entries) = .ok values) :
    Assigns id column rows values := by
  induction rows generalizing values with
  | nil =>
    obtain rfl := Except.ok.inj h
    exact fun _ _ => rfl
  | cons m rows ih =>
    obtain ⟨hm, hrows⟩ := List.forall_mem_cons.mp hid
    obtain ⟨identity, hidentity⟩ := Option.isSome_iff_exists.mp (TextMap.isSome_get?_iff.mpr hm)
    rw [List.map_cons, caseParams, TextMap.get?_entries] at h
    -- Rows without the column have no case, but the others keep their order.
    cases hcolumn : m.get? column with
    | none =>
      rw [hcolumn] at h
      exact .cons_absent hcolumn (ih hrows h)
    | some v =>
      rw [hcolumn] at h
      obtain ⟨w, hw, h⟩ := except_bind_eq_ok_iff.mp h
      obtain ⟨more, hmore, h⟩ := except_bind_eq_ok_iff.mp h
      obtain rfl := Except.ok.inj h
      rw [identityOf, TextMap.get?_entries, hidentity]
      exact .cons_present hidentity hcolumn (Value.stored_eq_ok_iff.mp hw) (ih hrows hmore)

theorem exists_caseParams_iff :
    (∃ values, caseParams (.str id) (.str column) (rows.map TextMap.entries) = .ok values) ↔
      ∀ m ∈ rows, ∀ v, m.get? column = some v → ∃ w, v.StoredAs w := by
  induction rows with
  | nil => simp [caseParams]
  | cons m rows ih =>
    rw [List.forall_mem_cons, ← ih, List.map_cons, caseParams, TextMap.get?_entries]
    cases hcolumn : m.get? column with
    | none => simp
    | some v =>
      simp only [except_bind_eq_ok_iff, Option.some.injEq, forall_eq', Value.stored_eq_ok_iff]
      constructor
      · rintro ⟨values, w, hw, more, hmore, -⟩
        exact ⟨⟨w, hw⟩, more, hmore⟩
      · rintro ⟨⟨w, hw⟩, more, hmore⟩
        exact ⟨_, w, hw, more, hmore, rfl⟩

theorem cases_eq_ok_iff {idField : Value} {rows : List Entries} {columns : List Value}
    {a : Assignments} : cases idField rows columns = .ok a ↔ ∃ slices,
      List.Forall₂ (fun c values => caseParams idField c rows = .ok values) columns slices ∧
      a = ⟨columns.map fun c => caseText idField c rows, slices.flatten⟩ := by
  induction columns generalizing a with
  | nil => simp [cases, eq_comm]
  | cons c columns ih =>
    simp only [cases, except_bind_eq_ok_iff, ih]
    constructor
    · rintro ⟨values, hvalues, b, ⟨slices, hslices, rfl⟩, ha⟩
      exact ⟨values :: slices, .cons hvalues hslices, (Except.ok.inj ha).symm⟩
    · rintro ⟨slices, hslices, rfl⟩
      cases hslices with
      | cons hvalues hslices => exact ⟨_, hvalues, _, ⟨_, hslices, rfl⟩, rfl⟩

def caseExpression (id column : String) (cases : Nat) : String :=
  column ++ " = CASE " ++ id ++ " " ++ " ".intercalate (List.replicate cases "WHEN ? THEN ?")
    ++ " ELSE " ++ column ++ " END"

theorem filled_entries (column : String) (rows : List TextMap) :
    filled (.str column) (rows.map TextMap.entries) = rows.countP (column ∈ ·.names) := by
  rw [filled, List.countP_map]
  refine List.countP_congr fun m _ => ?_
  simp [TextMap.has_entries_iff]

theorem caseText_entries (id column : String) (rows : List TextMap) :
    caseText (.str id) (.str column) (rows.map TextMap.entries) =
      caseExpression id column (rows.countP (column ∈ ·.names)) := by
  rw [← filled_entries, filled, List.countP_eq_length_filter, caseText, List.map_const']
  rfl

end Cases

theorem readPayload_eq_ok {idField v : Value} {payload : Payload}
    (hv : v.sequence? = some (rows.map fun m => .map m.entries))
    (h : readPayload idField v = .ok payload) : payload = .rows (rows.map TextMap.entries) ∧
      ∀ m ∈ rows, ∃ name ∈ m.names, idField = .str name := by
  have hread : readPayload idField v =
      (do return .rows (← readRows idField 0 (rows.map fun m => .map m.entries))) := by
    rcases Value.eq_of_sequence? hv with rfl | rfl <;> rfl
  rw [hread] at h
  obtain ⟨read, hrows, h⟩ := except_bind_eq_ok_iff.mp h
  obtain rfl := Except.ok.inj h
  obtain ⟨rfl, hcarried⟩ := readRows_eq_ok hrows
  exact ⟨rfl, hcarried⟩

/-- Rows that are accepted have one text for their identity. -/
theorem apply_rows_eq_ok {u u' : Update} {v : Value}
    (hv : v.sequence? = some (rows.map fun m => .map m.entries)) (hrows : rows ≠ [])
    (h : apply (.update v) u = .ok () u') :
    u' = { u with payload := some (.rows (rows.map TextMap.entries)) } ∧
      ∃ id, u.idField = .str id ∧ ∀ m ∈ rows, id ∈ m.names := by
  obtain ⟨t, k, hget, h⟩ := bind_eq_ok_iff.mp h
  obtain ⟨rfl, rfl⟩ := EStateM.Result.ok.inj hget
  obtain ⟨payload, l, hread, h⟩ := bind_eq_ok_iff.mp h
  obtain ⟨hpayload, rfl⟩ := liftExcept_eq_ok_iff.mp hread
  obtain ⟨-, rfl⟩ := EStateM.Result.ok.inj h
  obtain ⟨rfl, hcarried⟩ := readPayload_eq_ok hv hpayload
  obtain ⟨m, hm⟩ := List.exists_mem_of_ne_nil rows hrows
  obtain ⟨id, -, hid⟩ := hcarried m hm
  refine ⟨rfl, id, hid, fun other hother => ?_⟩
  obtain ⟨name, hname, heq⟩ := hcarried other hother
  rw [hid] at heq
  exact Value.str.inj heq ▸ hname

section Statement

variable {scope : Scope} {u : Update} {j k : Journal} {clause : String} {params : List Value}

/-- The statement for rows, with the values of the columns' cases and a further condition. -/
def rowsStatement (u : Update) (id : String) (rows : List TextMap) (slices : List (List Value))
    (extra : String × List Value) : Statement where
  sql := "UPDATE " ++ u.table ++ " SET " ++ ", ".intercalate ((assigned id rows).map fun column =>
      caseExpression id column (rows.countP (column ∈ ·.names))) ++ " WHERE " ++ id ++ " IN ("
    ++ Dialect.placeholders rows.length ++ ")" ++ extra.1 ++ singleLimit u.single
  params := slices.flatten ++ rows.map (fun m => (m.get? id).getD .null) ++ extra.2

/-- A database sees what the cases of each column bind, the identities and the filter. -/
theorem compile_rows_iff (hidField : u.idField = .str id) (hrows : rows ≠ [])
    (hassigned : assigned id rows ≠ []) (hfilter : u.filter.isEmpty = false)
    (htranslates : Compile.collect [] (Filter.compile scope "UPDATE" u.filter.toTree) j =
      .ok (clause, params) k) {s : Statement} :
    (∃ k', { u with payload := some (.rows (rows.map TextMap.entries)) }.compile scope j = .ok s k') ↔
      ∃ slices, List.Forall₂ (fun column values =>
        caseParams (.str id) (.str column) (rows.map TextMap.entries) = .ok values)
          (assigned id rows) slices ∧
        s = u.rowsStatement id rows slices (extraCondition clause params) := by
  have hcolumns : rowColumns u.idField (rows.map TextMap.entries) = (assigned id rows).map .str := by
    rw [hidField, rowColumns_eq_assigned]
  have htexts : ((assigned id rows).map Value.str).map
      (fun c => caseText u.idField c (rows.map TextMap.entries)) = (assigned id rows).map fun column =>
        caseExpression id column (rows.countP (column ∈ ·.names)) := by
    rw [List.map_map, hidField]
    exact List.map_congr_left fun column _ => caseText_entries id column rows
  have hidentities : (rows.map TextMap.entries).map (identityOf u.idField) =
      rows.map fun m => (m.get? id).getD .null := by
    rw [List.map_map, hidField]
    refine List.map_congr_left fun m _ => ?_
    rw [Function.comp_apply, identityOf, TextMap.get?_entries]
  have hid : u.idField.text = id := by rw [hidField]; rfl
  have hforall : ∀ slices, List.Forall₂ (fun c values =>
      caseParams u.idField c (rows.map TextMap.entries) = .ok values)
        ((assigned id rows).map .str) slices ↔ List.Forall₂ (fun column values =>
      caseParams (.str id) (.str column) (rows.map TextMap.entries) = .ok values)
        (assigned id rows) slices := by
    intro slices
    rw [hidField, List.forall₂_map_left_iff]
  have hgiven : { u with payload := some (.rows (rows.map TextMap.entries)) }.filter.isEmpty = false :=
    hfilter
  rw [compile_statesRows_iff hgiven rfl htranslates]
  constructor
  · rintro ⟨-, -, a, ha, rfl⟩
    rw [hcolumns] at ha
    obtain ⟨slices, hslices, rfl⟩ := cases_eq_ok_iff.mp ha
    refine ⟨slices, (hforall slices).mp hslices, ?_⟩
    rw [htexts, hidentities, hid, head, List.length_map]
    rfl
  · rintro ⟨slices, hslices, rfl⟩
    have hcases := cases_eq_ok_iff.mpr ⟨slices, (hforall slices).mpr hslices, rfl⟩
    rw [← hcolumns] at hcases
    refine ⟨by simpa using hrows, by simpa [hcolumns] using hassigned, _, hcases, ?_⟩
    rw [hcolumns, htexts, hidentities, hid, head, List.length_map]
    rfl

/-- The values for the cases of the columns can all be bound. -/
theorem exists_slices_iff :
    (∃ slices, List.Forall₂ (fun column values =>
      caseParams (.str id) (.str column) (rows.map TextMap.entries) = .ok values)
        (assigned id rows) slices) ↔
      ∀ m ∈ rows, ∀ name v, name ≠ id → m.get? name = some v → ∃ w, v.StoredAs w := by
  rw [exists_forall₂_iff]
  simp only [exists_caseParams_iff]
  constructor
  · intro h m hm name v hname hv
    have hmem : name ∈ m.names := TextMap.isSome_get?_iff.mp (by rw [hv]; rfl)
    exact h name (mem_assigned.mpr ⟨hname, m, hm, hmem⟩) m hm v hv
  · intro h column hcolumn m hm v hv
    exact h m hm column v (mem_assigned.mp hcolumn).1 hv

/-- Rows that are accepted are written as they say. The columns are the keys beside the identity,
each once, as they come; a record gets, in each column, the stored value of the first row for it
that has the column, and keeps its own if there is none; the identities are bound in the order of
the rows; and the filter stands beside them with its values, unless it always holds. -/
theorem bulk_update_writes_what_rows_say (u u' : Update) (v : Value) (rows : List TextMap)
    (hv : v.sequence? = some (rows.map fun m => .map m.entries)) (hrows : rows ≠ [])
    (haccepted : apply (.update v) u = .ok () u')
    (hcolumn : ∃ m ∈ rows, ∃ name ∈ m.names, u.idField ≠ .str name)
    (hfilter : u.filter.isEmpty = false) (scope : Scope) (j k : Journal) (clause : String)
    (params : List Value)
    (htranslates : Compile.collect [] (Filter.compile scope "UPDATE" u.filter.toTree) j =
      .ok (clause, params) k) :
    ∃ id, u.idField = .str id ∧ (∀ m ∈ rows, id ∈ m.names) ∧
      ((assigned id rows).Nodup ∧
        ∀ name, name ∈ assigned id rows ↔ name ≠ id ∧ ∃ m ∈ rows, name ∈ m.names) ∧
      ((∃ s k', u'.compile scope j = .ok s k') ↔
        ∀ m ∈ rows, ∀ name v, name ≠ id → m.get? name = some v → ∃ w, v.StoredAs w) ∧
      ((∀ m ∈ rows, m.TextKeyed) → ∃ s k', u'.compile scope j = .ok s k') ∧
      ∀ s k', u'.compile scope j = .ok s k' → ∃ slices identities extra,
        extra = (if clause = "1=1" then ("", []) else (" AND (" ++ clause ++ ")", params)) ∧
        s.sql = "UPDATE " ++ u.table ++ " SET " ++ ", ".intercalate
          ((assigned id rows).map fun column =>
            caseExpression id column (rows.countP (column ∈ ·.names))) ++ " WHERE " ++ id ++ " IN ("
          ++ Dialect.placeholders rows.length ++ ")" ++ extra.1 ++ singleLimit u.single ∧
        s.params = slices.flatten ++ identities ++ extra.2 ∧
        rows.map (TextMap.get? · id) = identities.map some ∧
        List.Forall₂ (fun column values =>
          values.length = 2 * rows.countP (column ∈ ·.names) ∧ Assigns id column rows values)
          (assigned id rows) slices := by
  obtain ⟨rfl, id, hidField, hcarried⟩ := apply_rows_eq_ok hv hrows haccepted
  have hassigned : assigned id rows ≠ [] := by
    obtain ⟨m, hm, name, hname, hne⟩ := hcolumn
    rw [hidField] at hne
    have hmem : name ∈ assigned id rows :=
      mem_assigned.mpr ⟨fun heq => hne (congrArg Value.str heq.symm), m, hm, hname⟩
    exact List.ne_nil_of_mem hmem
  have hcompile {s : Statement} := compile_rows_iff hidField hrows hassigned hfilter htranslates (s := s)
  have hreturns : (∃ s k', { u with payload := some (.rows (rows.map TextMap.entries)) }.compile scope j =
      .ok s k') ↔ ∀ m ∈ rows, ∀ name v, name ≠ id → m.get? name = some v → ∃ w, v.StoredAs w := by
    rw [← exists_slices_iff]
    simp only [hcompile]
    exact ⟨fun ⟨_, slices, h, _⟩ => ⟨slices, h⟩, fun ⟨slices, h⟩ => ⟨_, slices, h, rfl⟩⟩
  refine ⟨id, hidField, hcarried, ⟨Value.eraseDups_nodup _, fun _ => mem_assigned⟩, hreturns,
    fun htexts => ?_, fun s k' hs => ?_⟩
  · refine hreturns.mpr fun m hm name v _ hget => ?_
    exact Value.exists_storedAs (htexts m hm (name, v) (TextMap.get?_eq_some_iff.mp hget))
  · obtain ⟨slices, hslices, rfl⟩ := hcompile.mp ⟨k', hs⟩
    refine ⟨slices, rows.map fun m => (m.get? id).getD .null, extraCondition clause params, rfl, rfl,
      rfl, ?_, hslices.imp fun {column values} hvalues => ⟨?_, caseParams_assigns hcarried hvalues⟩⟩
    · rw [List.map_map]
      refine List.map_congr_left fun m hm => ?_
      obtain ⟨identity, hidentity⟩ :=
        Option.isSome_iff_exists.mp (TextMap.isSome_get?_iff.mpr (hcarried m hm))
      rw [Function.comp_apply, hidentity, Option.getD_some]
    · rw [caseParams_length hvalues, filled_entries]

def stockRows : List TextMap :=
  [⟨[("id", .int 1), ("size", .list [.int 4])], by decide⟩,
   ⟨[("id", .int 1), ("price", .int 9), ("size", .null)], by decide⟩,
   ⟨[("price", .int 8), ("id", .int 2)], by decide⟩]

def stock : Update where
  table := "stock"
  filter := .single [(.str "shop", .map [(.str "$gt", .int 3)])]

theorem stockRows_textKeyed : ∀ m ∈ stockRows, m.TextKeyed := by
  simp only [stockRows, List.forall_mem_cons, TextMap.TextKeyed]
  simp [Filter.TextKeyed, Filter.ItemsTextKeyed]

theorem stockRows_written :
    ∃ s k', { stock with payload := some (.rows (stockRows.map TextMap.entries)) }.compile
        (({} : Catalogue).scope 0) {} = .ok s k' ∧
      s.sql = "UPDATE stock SET size = CASE id WHEN ? THEN ? WHEN ? THEN ? ELSE size END, " ++
        "price = CASE id WHEN ? THEN ? WHEN ? THEN ? ELSE price END " ++
        "WHERE id IN (?, ?, ?) AND (shop > ?)" ∧
      ∃ size price, s.params = [size, price].flatten ++ [.int 1, .int 1, .int 2] ++ [.int 3] ∧
        Assigns "id" "size" stockRows size ∧ Assigns "id" "price" stockRows price := by
  have hcolumn : ∃ m ∈ stockRows, ∃ name ∈ m.names, stock.idField ≠ .str name :=
    ⟨_, List.mem_cons_self, "size", by decide, by simp [stock]⟩
  obtain ⟨id, hid, -, -, -, hreturns, hwritten⟩ := bulk_update_writes_what_rows_say stock _
    (.list (stockRows.map fun m => .map m.entries)) stockRows rfl (by decide) rfl hcolumn rfl
    (({} : Catalogue).scope 0) {} _ "shop > ?" [.int 3] rfl
  obtain rfl : "id" = id := Value.str.inj hid
  obtain ⟨s, k', hs⟩ := hreturns stockRows_textKeyed
  obtain ⟨slices, identities, extra, rfl, hsql, hparams, hidentities, hslices⟩ := hwritten s k' hs
  obtain rfl : [.int 1, .int 1, .int 2] = identities :=
    List.map_injective_iff.mpr (Option.some_injective Value) hidentities
  have hassigned : assigned "id" stockRows = ["size", "price"] := by decide
  rw [hassigned] at hslices
  obtain _ | @⟨_, size, _, _, hsize, hrest⟩ := hslices
  obtain _ | @⟨_, price, _, _, hprice, hnone⟩ := hrest
  obtain _ | _ := hnone
  exact ⟨s, k', hs, hsql.trans (by rw [hassigned]; rfl), size, price, hparams, hsize.2, hprice.2⟩

end Statement

end Update

end BoundQuery
