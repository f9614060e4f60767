import BoundQuery.Proofs.Insertion
import BoundQuery.Proofs.Json.ReadBack
import BoundQuery.Proofs.OperatorUpdate
import BoundQuery.Proofs.Spelled

/-! Stored values. Lists, tuples and maps are bound as JSON text wherever they are stored or looked
for, so that from what is bound they can be told apart: in the rows of an INSERT, in what an update
puts, in the rows of a bulk update, and in the operands of containment tests. -/
namespace BoundQuery

namespace Json

/-- A list, a tuple or a map that JSON has a form for. -/
structure Composite (v : Value) : Prop where
  composite : v.isComposite = true
  faithful : Faithful v

/-- What is stored tells composite values apart. -/
theorem Composite.listed_eq {v w x : Value} (hv : Composite v) (hw : Composite w)
    (hvx : v.StoredAs x) (hwx : w.StoredAs x) : v.listed = w.listed := by
  cases hvx with
  | itself simple => cases hv.composite.symm.trans simple
  | text _ ht =>
    cases hwx with
    | itself simple => cases hw.composite.symm.trans simple
    | text _ hs =>
      have hjson := (json_eq_ok_iff.mpr ht).trans (json_eq_ok_iff.mpr hs).symm
      exact hv.faithful.listed_eq hw.faithful hjson

end Json

open Json

def TextMap.cell (rows : List TextMap) (row : Nat) (name : String) : Option Value :=
  rows[row]?.bind fun m => m.get? name

/-- Where both tables have a composite value in the column, it is the same, but for tuples and
lists. -/
def TextMap.SameComposites (name : String) (rows rows' : List TextMap) : Prop :=
  ∀ row v w, cell rows row name = some v → cell rows' row name = some w → Composite v →
    Composite w → v.listed = w.listed

theorem forall₂_getElem? {α β : Type} {R : α → β → Prop} {xs : List α} {ys : List β} {index : Nat}
    {x : α} (h : List.Forall₂ R xs ys) (hx : xs[index]? = some x) :
    ∃ y, ys[index]? = some y ∧ R x y := by
  induction h generalizing index with
  | nil => cases hx
  | cons hfirst _ ih =>
    cases index with
    | zero =>
      obtain rfl := Option.some.inj hx
      exact ⟨_, rfl, hfirst⟩
    | succ index => exact ih hx

theorem TextMap.cell_eq_some_iff {rows : List TextMap} {row : Nat} {name : String} {v : Value} :
    cell rows row name = some v ↔ ∃ m, rows[row]? = some m ∧ m.get? name = some v :=
  Option.bind_eq_some_iff

namespace Insert

variable {i : Insert} {documents documents' : List TextMap} {s : Statement} {row : Nat}
  {name : String} {v : Value}

/-- The place of a value in a statement: after the rows before, in the order of the columns. -/
theorem statement_cell (hdocuments : i.documents = documents.map TextMap.entries)
    (hs : i.statement = .ok s) (hv : TextMap.cell documents row name = some v) :
    ∃ first, documents.head? = some first ∧ ∃ x, v.StoredAs x ∧
      s.params[row * first.names.length + first.names.idxOf name]? = some x := by
  have hexists : ∃ first rest, documents = first :: rest ∧ first.names ≠ [] := by
    by_contra hnot
    push Not at hnot
    exact statement_ne_ok hdocuments hnot s hs
  obtain ⟨first, rest, rfl, hfirst⟩ := hexists
  obtain ⟨hsame, params, upsert, hparams, -, rfl⟩ := (statement_eq_ok_iff hdocuments hfirst).mp hs
  obtain ⟨d, hd, hget⟩ := TextMap.cell_eq_some_iff.mp hv
  have hname : name ∈ d.names := TextMap.isSome_get?_iff.mp (by rw [hget]; rfl)
  have hcolumn : name ∈ first.names := by
    rcases List.mem_cons.mp (List.mem_of_getElem? hd) with rfl | hrest
    · exact hname
    · exact (hsame d hrest name).mp hname
  obtain ⟨x, hx, hplace⟩ := rowParams_getElem? hparams hd (List.getElem?_idxOf hcolumn)
  rw [hget] at hx
  exact ⟨first, rfl, x, hx, hplace⟩

/-- Some INSERT of the documents compiles, with these values bound. -/
def Binds (documents : List TextMap) (params : List Value) : Prop :=
  ∃ (i : Insert) (j : Journal) (s : Statement) (k : Journal),
    i.documents = documents.map TextMap.entries ∧ i.compile j = .ok s k ∧ s.params = params

theorem Binds.sameComposites {params : List Value} (h : Binds documents params)
    (h' : Binds documents' params)
    (hcolumns : documents.head?.map TextMap.names = documents'.head?.map TextMap.names) :
    TextMap.SameComposites name documents documents' := by
  intro row v w hv hw hcv hcw
  obtain ⟨i, j, s, k, hdocuments, hs, hparams⟩ := h
  obtain ⟨i', j', s', k', hdocuments', hs', hparams'⟩ := h'
  obtain ⟨first, hfirst, x, hx, hplace⟩ := statement_cell hdocuments (compile_eq_ok hs) hv
  obtain ⟨first', hfirst', y, hy, hplace'⟩ := statement_cell hdocuments' (compile_eq_ok hs') hw
  have hnames : first.names = first'.names := by simpa [hfirst, hfirst'] using hcolumns
  rw [hparams, hnames] at hplace
  rw [hparams'] at hplace'
  obtain rfl := Option.some.inj (hplace.symm.trans hplace')
  exact hcv.listed_eq hcw hx hy

end Insert

namespace Update

/-- The filter can be compiled, with handlers that only append. -/
structure Conditioned (c : Catalogue) (u : Update) (j : Journal) : Prop where
  handlers : ∀ name ∈ Filter.applied u.filter.toTree, ∀ h,
    (c.registry u.registry).find? name = some h → h.OnlyAppends
  translates : ∃ clause params k, Compile.collect []
    (Filter.compile (c.scope u.registry) "UPDATE" u.filter.toTree) j = .ok (clause, params) k

/-- The payload is accepted, and the update compiles, with these values bound. -/
def Binds (c : Catalogue) (u : Update) (j : Journal) (payload : Value) (params : List Value) :
    Prop :=
  ∃ (u' : Update) (s : Statement) (k : Journal), apply (.update payload) u = .ok () u' ∧
    u'.compile (c.scope u.registry) j = .ok s k ∧ s.params = params

theorem Binds.filter_isEmpty {c : Catalogue} {j : Journal} {u : Update} {payload : Value}
    {params : List Value} (h : Binds c u j payload params) : u.filter.isEmpty = false := by
  obtain ⟨u', s, k, happly, hcompile, -⟩ := h
  obtain ⟨t, k, hget, happly⟩ := bind_eq_ok_iff.mp happly
  obtain ⟨rfl, rfl⟩ := EStateM.Result.ok.inj hget
  obtain ⟨read, l, hread, happly⟩ := bind_eq_ok_iff.mp happly
  obtain ⟨-, rfl⟩ := liftExcept_eq_ok_iff.mp hread
  obtain ⟨-, rfl⟩ := EStateM.Result.ok.inj happly
  exact (compile_eq_ok_iff.mp hcompile).1

section Put

open FieldChange

/-- Where both payloads put a composite value at the same place among the values, it is the same,
but for tuples and lists. -/
def SamePuts (m m' : TextMap) : Prop :=
  ∀ (index : Nat) (x y : FieldChange), ((changes m.fields).filter hasValue)[index]? = some x →
    ((changes m'.fields).filter hasValue)[index]? = some y → x.operator = .put →
    y.operator = .put → Composite x.value → Composite y.value → x.value.listed = y.value.listed

theorem Binds.samePuts {c : Catalogue} {u : Update} {j : Journal} (hu : u.Conditioned c j)
    {m m' : TextMap} {params : List Value} (h : Binds c u j m.fields.toValue params)
    (h' : Binds c u j m'.fields.toValue params) : SamePuts m m' := by
  intro index x y hx hy hput hput' hcx hcy
  have hfilter := h.filter_isEmpty
  obtain ⟨clause, bound, k, htranslates⟩ := hu.translates
  have hafter := collect_after hu.handlers htranslates
  obtain ⟨u₁, s, k₁, happly, hs, hparams⟩ := h
  obtain ⟨u₂, s', k₂, happly', hs', hparams'⟩ := h'
  obtain ⟨-, a, ⟨-, hvalues⟩, rfl⟩ := made_of_changes hfilter hafter happly hs
  obtain ⟨-, a', ⟨-, hvalues'⟩, rfl⟩ := made_of_changes hfilter hafter happly' hs'
  have hsame : a.params = a'.params := List.append_cancel_right (hparams.trans hparams'.symm)
  obtain ⟨v, hv, hbinds⟩ := forall₂_getElem? hvalues hx
  obtain ⟨w, hw, hbinds'⟩ := forall₂_getElem? hvalues' hy
  rw [hsame, hw] at hv
  obtain rfl := Option.some.inj hv
  simp only [FieldChange.Binds, hput] at hbinds
  simp only [FieldChange.Binds, hput'] at hbinds'
  exact hcx.listed_eq hcy hbinds hbinds'

end Put

section Rows

variable {id column : String} {rows rows' : List TextMap} {values : List Value}

theorem keys_entries_eq (hnames : rows.map TextMap.names = rows'.map TextMap.names) :
    (rows.map TextMap.entries).map Entries.keys = (rows'.map TextMap.entries).map Entries.keys := by
  have hkeys : ∀ rows : List TextMap, (rows.map TextMap.entries).map Entries.keys =
      (rows.map TextMap.names).map (List.map .str) := by
    intro rows
    simp [Function.comp_def]
  rw [hkeys, hkeys, hnames]

theorem slices_lengths {columns : List String} {slices : List (List Value)}
    (h : List.Forall₂ (fun column values =>
      caseParams (.str id) (.str column) (rows.map TextMap.entries) = .ok values) columns slices) :
    slices.map List.length =
      columns.map fun column => 2 * filled (.str column) (rows.map TextMap.entries) := by
  induction h with
  | nil => rfl
  | cons hfirst _ ih => rw [List.map_cons, List.map_cons, caseParams_length hfirst, ih]

/-- With the same columns in the rows, the slices of values for the columns are of the same lengths,
so that they are told apart by all values together. -/
theorem slices_eq (hnames : rows.map TextMap.names = rows'.map TextMap.names) {columns : List String}
    {slices slices' : List (List Value)}
    (h : List.Forall₂ (fun column values =>
      caseParams (.str id) (.str column) (rows.map TextMap.entries) = .ok values) columns slices)
    (h' : List.Forall₂ (fun column values =>
      caseParams (.str id) (.str column) (rows'.map TextMap.entries) = .ok values) columns slices')
    (hflatten : slices.flatten = slices'.flatten) : slices = slices' := by
  refine List.eq_iff_flatten_eq.mpr ⟨hflatten, ?_⟩
  rw [slices_lengths h, slices_lengths h']
  exact List.map_congr_left fun column _ => by rw [filled_eq (keys_entries_eq hnames)]

/-- Rows with the same columns and the same values bound for one have the same composite values
in it. -/
theorem case_told_apart (hnames : rows.map TextMap.names = rows'.map TextMap.names)
    (h : caseParams (.str id) (.str column) (rows.map TextMap.entries) = .ok values)
    (h' : caseParams (.str id) (.str column) (rows'.map TextMap.entries) = .ok values)
    {row : Nat} {v w : Value} (hv : TextMap.cell rows row column = some v)
    (hw : TextMap.cell rows' row column = some w) (hcv : Composite v) (hcw : Composite w) :
    v.listed = w.listed := by
  induction rows generalizing rows' values row with
  | nil => cases hv
  | cons m rows ih =>
    cases rows' with
    | nil => cases hw
    | cons m' rows' =>
      obtain ⟨hfirst, hrest⟩ := List.cons.inj hnames
      have hsome : (m.get? column).isSome = (m'.get? column).isSome := by
        rw [Bool.eq_iff_iff, TextMap.isSome_get?_iff, TextMap.isSome_get?_iff, hfirst]
      rw [List.map_cons, caseParams, TextMap.get?_entries] at h h'
      cases hcolumn : m.get? column with
      | none =>
        have hcolumn' : m'.get? column = none := by
          rw [hcolumn] at hsome
          exact Option.isSome_eq_false_iff.mp hsome.symm |> Option.isNone_iff_eq_none.mp
        rw [hcolumn] at h
        rw [hcolumn'] at h'
        cases row with
        | zero => cases hcolumn.symm.trans hv
        | succ row => exact ih hrest h h' hv hw
      | some x =>
        obtain ⟨y, hcolumn'⟩ : ∃ y, m'.get? column = some y := by
          rw [hcolumn] at hsome
          exact Option.isSome_iff_exists.mp hsome.symm
        rw [hcolumn] at h
        rw [hcolumn'] at h'
        obtain ⟨z, hz, h⟩ := except_bind_eq_ok_iff.mp h
        obtain ⟨more, hmore, h⟩ := except_bind_eq_ok_iff.mp h
        obtain rfl := Except.ok.inj h
        obtain ⟨z', hz', h'⟩ := except_bind_eq_ok_iff.mp h'
        obtain ⟨more', hmore', h'⟩ := except_bind_eq_ok_iff.mp h'
        obtain ⟨-, hvalues⟩ := List.cons.inj (Except.ok.inj h')
        obtain ⟨rfl, rfl⟩ := List.cons.inj hvalues
        cases row with
        | zero =>
          obtain rfl := Option.some.inj (hcolumn.symm.trans hv)
          obtain rfl := Option.some.inj (hcolumn'.symm.trans hw)
          exact hcv.listed_eq hcw (Value.stored_eq_ok_iff.mp hz) (Value.stored_eq_ok_iff.mp hz')
        | succ row => exact ih hrest hmore hmore' hv hw

theorem Binds.sameComposites {c : Catalogue} {u : Update} {j : Journal} (hu : u.Conditioned c j)
    {payload payload' : Value} {params : List Value}
    (hpayload : payload.sequence? = some (rows.map fun m => .map m.entries))
    (hpayload' : payload'.sequence? = some (rows'.map fun m => .map m.entries))
    (hnames : rows.map TextMap.names = rows'.map TextMap.names) (h : Binds c u j payload params)
    (h' : Binds c u j payload' params) (hcolumn : u.idField ≠ .str column) :
    TextMap.SameComposites column rows rows' := by
  intro row v w hv hw hcv hcw
  have hfilter := h.filter_isEmpty
  obtain ⟨clause, bound, k, htranslates⟩ := hu.translates
  obtain ⟨m, hm, hget⟩ := TextMap.cell_eq_some_iff.mp hv
  obtain ⟨m', hm', -⟩ := TextMap.cell_eq_some_iff.mp hw
  have hrows := List.ne_nil_of_mem (List.mem_of_getElem? hm)
  have hrows' := List.ne_nil_of_mem (List.mem_of_getElem? hm')
  obtain ⟨u₁, s, k₁, happly, hs, hparams⟩ := h
  obtain ⟨u₂, s', k₂, happly', hs', hparams'⟩ := h'
  obtain ⟨rfl, id, hidField, -⟩ := apply_rows_eq_ok hpayload hrows happly
  obtain ⟨rfl, -⟩ := apply_rows_eq_ok hpayload' hrows' happly'
  have hne : column ≠ id := fun heq => hcolumn (heq ▸ hidField)
  have hassigned : assigned id rows = assigned id rows' := by
    rw [assigned, assigned, List.flatMap_def, List.flatMap_def, hnames]
  have hmem : column ∈ assigned id rows := mem_assigned.mpr
    ⟨hne, m, List.mem_of_getElem? hm, TextMap.isSome_get?_iff.mp (by rw [hget]; rfl)⟩
  have hsome := List.ne_nil_of_mem hmem
  obtain ⟨slices, hslices, rfl⟩ :=
    (compile_rows_iff hidField hrows hsome hfilter htranslates).mp ⟨k₁, hs⟩
  obtain ⟨slices', hslices', rfl⟩ :=
    (compile_rows_iff hidField hrows' (hassigned ▸ hsome) hfilter htranslates).mp ⟨k₂, hs'⟩
  rw [← hassigned] at hslices'
  -- Behind the cases of the columns stand as many identities on both sides.
  have hflatten : slices.flatten = slices'.flatten := by
    have hidentities : (rows.map fun m => (m.get? id).getD .null).length =
        (rows'.map fun m => (m.get? id).getD .null).length := by
      simpa using congrArg List.length hnames
    exact (List.append_inj' (List.append_cancel_right (hparams.trans hparams'.symm)) hidentities).1
  obtain rfl := slices_eq hnames hslices hslices' hflatten
  obtain ⟨index, hindex⟩ := List.mem_iff_getElem?.mp hmem
  obtain ⟨values, hvalues, hcase⟩ := forall₂_getElem? hslices hindex
  obtain ⟨values', hvalues', hcase'⟩ := forall₂_getElem? hslices' hindex
  obtain rfl := Option.some.inj (hvalues.symm.trans hvalues')
  exact case_told_apart hnames hcase hcase' hv hw hcv hcw

end Rows

end Update

namespace Filter

variable {scope : Scope} {field operand operand' : Value} {name context : String} {d d₁ : Draft}
  {clause : Value}

theorem isSubquery_of_faithful {v : Value} (h : Faithful v) : v.isSubquery = false := by
  cases v with
  | subquery ref => exact h.elim
  | _ => rfl

theorem any_isSubquery_of_faithful {vs : List Value} (h : ItemsFaithful vs) :
    vs.any Value.isSubquery = false := by
  induction vs with
  | nil => rfl
  | cons v vs ih => rw [List.any_cons, isSubquery_of_faithful h.1, ih h.2, Bool.or_false]

/-- The items of a containment test are bound as JSON text, one by one. -/
theorem containsAll_binds {vs : List Value} (hvs : operand.sequence? = some vs)
    (hfaithful : ItemsFaithful vs)
    (h : applySimple scope field name (.member .containsAll) context operand d = .ok clause d₁) :
    ∃ texts, List.Forall₂ (fun v t => v.json = .ok t) vs texts ∧
      d₁.params = d.params ++ texts.map .str := by
  simp only [applySimple, hvs, memberOf, any_isSubquery_of_faithful hfaithful] at h
  cases vs with
  | nil =>
    obtain ⟨_, d', hnote, h⟩ := bind_eq_ok_iff.mp h
    obtain ⟨-, rfl⟩ := EStateM.Result.ok.inj hnote
    obtain ⟨-, rfl⟩ := EStateM.Result.ok.inj h
    exact ⟨[], .nil, (List.append_nil _).symm⟩
  | cons v vs =>
    obtain ⟨tests, d', htests, h⟩ := bind_eq_ok_iff.mp h
    obtain ⟨-, rfl⟩ := EStateM.Result.ok.inj h
    obtain ⟨bound, hparams, rows, ⟨texts, htexts, rfl⟩, -, rfl⟩ :=
      containments_spelled (v :: vs) d tests d' htests
    refine ⟨texts, htexts, hparams.trans ?_⟩
    rw [List.flatMap_map, List.map_eq_flatMap]
    simp only [params_containment]

theorem element_binds (h : applySimple scope field name .element context operand d = .ok clause d₁) :
    ∃ t, operand.json = .ok t ∧ d₁.params = d.params ++ [.str t] := by
  obtain ⟨t, d', hjson, h⟩ := bind_eq_ok_iff.mp h
  obtain ⟨ht, rfl⟩ := liftExcept_eq_ok_iff.mp hjson
  obtain ⟨_, d'', hbind, h⟩ := bind_eq_ok_iff.mp h
  obtain ⟨-, rfl⟩ := EStateM.Result.ok.inj hbind
  obtain ⟨-, rfl⟩ := EStateM.Result.ok.inj h
  exact ⟨t, ht, rfl⟩

/-- Applied to the operand, the operator is written by itself, and leaves these values bound. -/
def Binds (operator : Operator) (operand : Value) (d : Draft) (params : List Value) : Prop :=
  ∃ scope field name context clause d',
    applySimple scope field name operator context operand d = .ok clause d' ∧ d'.params = params

theorem listedItems_eq {vs ws : List Value} {texts : List String} (hv : ItemsFaithful vs)
    (hw : ItemsFaithful ws) (h : List.Forall₂ (fun v t => v.json = .ok t) vs texts)
    (h' : List.Forall₂ (fun v t => v.json = .ok t) ws texts) : listedItems vs = listedItems ws := by
  induction h generalizing ws with
  | nil =>
    cases h'
    rfl
  | cons hfirst _ ih =>
    cases h' with
    | cons hfirst' hrest' =>
      rw [listedItems, listedItems, hv.1.listed_eq hw.1 (hfirst.trans hfirst'.symm),
        ih hv.2 hw.2 hrest']

theorem Binds.listedItems_eq {params : List Value} {vs ws : List Value}
    (hvs : operand.sequence? = some vs) (hws : operand'.sequence? = some ws)
    (hfv : ItemsFaithful vs) (hfw : ItemsFaithful ws)
    (h : Binds (.member .containsAll) operand d params)
    (h' : Binds (.member .containsAll) operand' d params) : listedItems vs = listedItems ws := by
  obtain ⟨_, _, _, _, _, d₁, h, rfl⟩ := h
  obtain ⟨_, _, _, _, _, d₂, h', hparams⟩ := h'
  obtain ⟨texts, htexts, hbound⟩ := containsAll_binds hvs hfv h
  obtain ⟨texts', htexts', hbound'⟩ := containsAll_binds hws hfw h'
  have hsame : texts = texts' := by
    have happend := (hbound.symm.trans hparams.symm).trans hbound'
    exact (List.map_injective_iff.mpr fun _ _ => Value.str.inj) (List.append_cancel_left happend)
  subst hsame
  exact Filter.listedItems_eq hfv hfw htexts htexts'

theorem Binds.listed_eq {params : List Value} (hf : Faithful operand) (hf' : Faithful operand')
    (h : Binds .element operand d params) (h' : Binds .element operand' d params) :
    operand.listed = operand'.listed := by
  obtain ⟨_, _, _, _, _, d₁, h, rfl⟩ := h
  obtain ⟨_, _, _, _, _, d₂, h', hparams⟩ := h'
  obtain ⟨t, ht, hbound⟩ := element_binds h
  obtain ⟨t', ht', hbound'⟩ := element_binds h'
  have happend := (hbound.symm.trans hparams.symm).trans hbound'
  obtain rfl := Value.str.inj (List.singleton_inj.mp (List.append_cancel_left happend))
  exact hf.listed_eq hf' (ht.trans ht'.symm)

end Filter

namespace Json

/-- The text of a value is read back as the value, with its tuples as lists, and nothing of the text
is left over; so values that differ in more than that have different texts. They are told apart by
what is bound for them, wherever they are stored or looked for. -/
structure TextsTellValues : Prop where
  reads_back : ∀ v, Faithful v → ∃ t, v.json = .ok t ∧ read? t = some v.listed
  texts : ∀ v w, Faithful v → Faithful w → v.json = w.json → v.listed = w.listed
  stored : ∀ v w, Composite v → Composite w → v.stored = w.stored → v.listed = w.listed
  documents : ∀ (documents documents' : List TextMap) params, Insert.Binds documents params →
    Insert.Binds documents' params →
    documents.head?.map TextMap.names = documents'.head?.map TextMap.names →
    ∀ name, TextMap.SameComposites name documents documents'
  puts : ∀ c u j, Update.Conditioned c u j → ∀ (m m' : TextMap) params,
    Update.Binds c u j m.fields.toValue params → Update.Binds c u j m'.fields.toValue params →
    Update.SamePuts m m'
  rows : ∀ c u j, Update.Conditioned c u j →
    ∀ (payload payload' : Value) (rows rows' : List TextMap) params,
    payload.sequence? = some (rows.map fun m => .map m.entries) →
    payload'.sequence? = some (rows'.map fun m => .map m.entries) →
    rows.map TextMap.names = rows'.map TextMap.names → Update.Binds c u j payload params →
    Update.Binds c u j payload' params →
    ∀ name, u.idField ≠ .str name → TextMap.SameComposites name rows rows'
  containsAll : ∀ (operand operand' : Value) vs ws d params, operand.sequence? = some vs →
    operand'.sequence? = some ws → ItemsFaithful vs → ItemsFaithful ws →
    Filter.Binds (.member .containsAll) operand d params →
    Filter.Binds (.member .containsAll) operand' d params → listedItems vs = listedItems ws
  element : ∀ operand operand' d params, Faithful operand → Faithful operand' →
    Filter.Binds .element operand d params → Filter.Binds .element operand' d params →
    operand.listed = operand'.listed

theorem stored_text_reads_back : TextsTellValues where
  reads_back v hv := by
    obtain ⟨t, ht⟩ := hv.exists_json
    exact ⟨t, ht, hv.read?_json ht⟩
  texts _ _ hv hw h := hv.listed_eq hw h
  stored v _ hv hw h := by
    obtain ⟨x, hx⟩ := Value.exists_storedAs (Faithful.textKeyed v hv.faithful)
    have hwx := Value.stored_eq_ok_iff.mp (h.symm.trans (Value.stored_eq_ok_iff.mpr hx))
    exact hv.listed_eq hw hx hwx
  documents _ _ _ h h' hcolumns _ := h.sameComposites h' hcolumns
  puts _ _ _ hu _ _ _ h h' := h.samePuts hu h'
  rows _ _ _ hu _ _ _ _ _ hpayload hpayload' hnames h h' _ hcolumn :=
    h.sameComposites hu hpayload hpayload' hnames h' hcolumn
  containsAll _ _ _ _ _ _ hvs hws hfv hfw h h' := h.listedItems_eq hvs hws hfv hfw h'
  element _ _ _ _ hf hf' h h' := h.listed_eq hf hf' h'

/-- A tuple in a map, whose keys need every kind of escape or are empty. -/
def noted : Value :=
  .map [(.str "a\"b\\\n\x01é", .tuple [.int (-120), .null, .list []]),
    (.str "", .map [(.str "ok", .bool true)])]

def flatTags : Value := .list [.int 1]

def nestedTags : Value := .list [.tuple [.int 1]]

def TagsToldApart (Binds : Value → List Value → Prop) : Prop :=
  ∃ params params', Binds flatTags params ∧ Binds nestedTags params' ∧ params ≠ params'

theorem flatTags_composite : Composite flatTags :=
  ⟨rfl, by simp [flatTags, Faithful, ItemsFaithful]⟩

theorem nestedTags_composite : Composite nestedTags :=
  ⟨rfl, by simp [nestedTags, Faithful, ItemsFaithful]⟩

theorem tagsToldApart {Binds : Value → List Value → Prop} {params params' : List Value}
    (h : Binds flatTags params) (h' : Binds nestedTags params')
    (hlisted : ∀ params, Binds flatTags params → Binds nestedTags params →
      flatTags.listed = nestedTags.listed) : TagsToldApart Binds := by
  refine ⟨params, params', h, h', ?_⟩
  rintro rfl
  have hsame := hlisted params h h'
  simp [flatTags, nestedTags, Value.listed, listedItems] at hsame

def tagged (tags : Value) : TextMap := ⟨[("id", .int 1), ("tags", tags)], by simp⟩

def retagged (tags : Value) : TextMap :=
  ⟨[("$set", .map [(.str "tags", tags)])], List.nodup_singleton _⟩

def firstUser : Update where
  table := "users"
  filter := .single [(.str "id", .int 1)]

theorem firstUser_conditioned : firstUser.Conditioned {} {} where
  handlers _ _ _ h := by cases h
  translates := ⟨_, _, _, rfl⟩

theorem noted_reads_back :
    (∃ t, noted.json = .ok t ∧ read? t = some (.map
      [(.str "a\"b\\\n\x01é", .list [.int (-120), .null, .list []]),
        (.str "", .map [(.str "ok", .bool true)])])) ∧
    (TagsToldApart fun tags => Insert.Binds [tagged tags]) ∧
    (TagsToldApart fun tags => Update.Binds {} firstUser {} (retagged tags).fields.toValue) ∧
    (TagsToldApart fun tags => Update.Binds {} firstUser {} (.list [.map (tagged tags).entries])) ∧
    (TagsToldApart fun tags => Filter.Binds (.member .containsAll) tags {}) ∧
    TagsToldApart fun tags => Filter.Binds .element tags {} := by
  have hnoted : Faithful noted := by
    simp [noted, Faithful, ItemsFaithful, EntriesFaithful, Entries.keys]
  have hflat := flatTags_composite
  have hnested := nestedTags_composite
  obtain ⟨hread, -, -, hdocuments, hputs, hrows, hcontains, helement⟩ := stored_text_reads_back
  refine ⟨hread noted hnoted, ?_, ?_, ?_, ?_, ?_⟩
  · refine tagsToldApart
      ⟨{ table := "users", documents := _ }, {}, _, _, rfl, rfl, rfl⟩
      ⟨{ table := "users", documents := _ }, {}, _, _, rfl, rfl, rfl⟩ fun params h h' => ?_
    exact hdocuments _ _ params h h' rfl "tags" 0 _ _ rfl rfl hflat hnested
  · refine tagsToldApart ⟨_, _, _, rfl, rfl, rfl⟩ ⟨_, _, _, rfl, rfl, rfl⟩ fun params h h' => ?_
    exact hputs _ _ _ firstUser_conditioned _ _ params h h' 0 _ _ rfl rfl rfl rfl hflat hnested
  · refine tagsToldApart ⟨_, _, _, rfl, rfl, rfl⟩ ⟨_, _, _, rfl, rfl, rfl⟩ fun params h h' => ?_
    exact hrows _ _ _ firstUser_conditioned _ _ [tagged flatTags] [tagged nestedTags] params rfl rfl
      rfl h h' "tags" (by simp [firstUser]) 0 _ _ rfl rfl hflat hnested
  · refine tagsToldApart ⟨Catalogue.scope {} 0, .null, "tags", "SELECT", _, _, rfl, rfl⟩
      ⟨Catalogue.scope {} 0, .null, "tags", "SELECT", _, _, rfl, rfl⟩ fun params h h' => ?_
    have hitems := hcontains _ _ _ _ _ params rfl rfl hflat.faithful hnested.faithful h h'
    rw [flatTags, nestedTags, Value.listed, Value.listed, hitems]
  · refine tagsToldApart ⟨Catalogue.scope {} 0, .null, "tags", "SELECT", _, _, rfl, rfl⟩
      ⟨Catalogue.scope {} 0, .null, "tags", "SELECT", _, _, rfl, rfl⟩ fun params h h' => ?_
    exact helement _ _ _ params hflat.faithful hnested.faithful h h'

end Json

end BoundQuery
