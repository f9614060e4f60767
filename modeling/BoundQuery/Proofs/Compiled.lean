import BoundQuery.Builder

/-! What a statement that compiles is made of. -/
namespace BoundQuery

theorem liftExcept_eq_ok_iff {σ α : Type} {x : Except Error α} {a : α} {s t : σ} :
    (liftM x : EStateM Error σ α) s = .ok a t ↔ x = .ok a ∧ s = t := by
  cases x with
  | ok b =>
    show EStateM.Result.ok b s = .ok a t ↔ _
    simp
  | error e =>
    show EStateM.Result.error e s = .ok a t ↔ _
    simp

theorem pure_eq_ok_iff {σ α : Type} {a b : α} {s t : σ} :
    (pure a : EStateM Error σ α) s = .ok b t ↔ a = b ∧ s = t := by
  show EStateM.Result.ok a s = .ok b t ↔ _
  simp

theorem throw_ne_ok {σ α : Type} {e : Error} {a : α} {s t : σ} :
    (throw e : EStateM Error σ α) s ≠ .ok a t := by
  intro h
  cases h

/-- A report at the end does not change what is returned. -/
theorem noted_eq_ok_iff {α : Type} {e : Event} {a b : α} {j j' : Journal} :
    (do Work.note e; return a : Work α) j = .ok b j' ↔ b = a ∧ j' = j.note e := by
  show EStateM.Result.ok a (j.note e) = .ok b j' ↔ _
  simp [eq_comm]

theorem Delete.compile_eq_ok_iff {scope : Scope} {d : Delete} {s : Statement} {j j' : Journal} :
    d.compile scope j = .ok s j' ↔ d.filter.isEmpty = false ∧ ∃ clause params k,
      Compile.collect [] (Filter.compile scope "DELETE" d.filter.toTree) j = .ok (clause, params) k ∧
      s = ⟨"DELETE FROM " ++ d.table ++ " WHERE " ++ clause ++ singleLimit d.single, params⟩ ∧
      j' = k.note (.compiled .delete s) := by
  unfold Delete.compile
  by_cases h : d.filter.isEmpty = true
  · simp [h, throw_ne_ok]
  · rw [if_neg h, bind_eq_ok_iff]
    simp only [Prod.exists, noted_eq_ok_iff, Bool.not_eq_true _ ▸ h, true_and]
    constructor
    · rintro ⟨clause, params, k, hk, rfl, rfl⟩
      exact ⟨clause, params, k, hk, rfl, rfl⟩
    · rintro ⟨clause, params, k, hk, rfl, rfl⟩
      exact ⟨clause, params, k, hk, rfl, rfl⟩

theorem Select.condition_eq_ok {scope : Scope} {s : Select} {texts : List String}
    {params : List Value} {j j' : Journal} (h : s.condition scope j = .ok (texts, params) j') :
    (s.filter.isEmpty = true ∧ texts = [] ∧ params = []) ∨
      s.filter.isEmpty = false ∧ ∃ clause, texts = ["WHERE " ++ clause] ∧
        Compile.collect [] (Filter.compile scope "SELECT" s.filter.toTree) j =
          .ok (clause, params) j' := by
  unfold Select.condition at h
  by_cases he : s.filter.isEmpty = true
  · rw [if_pos he, pure_eq_ok_iff] at h
    obtain ⟨⟨rfl, rfl⟩, _⟩ := h
    exact .inl ⟨he, rfl, rfl⟩
  · rw [if_neg he, bind_eq_ok_iff] at h
    obtain ⟨⟨clause, params⟩, k, hk, hreturn⟩ := h
    obtain ⟨⟨rfl, rfl⟩, rfl⟩ := pure_eq_ok_iff.mp hreturn
    exact .inr ⟨by simpa using he, clause, rfl, hk⟩

theorem Select.compile_eq_ok {scope : Scope} {s : Select} {st : Statement} {j j' : Journal}
    (h : s.compile scope j = .ok st j') : ∃ columns condition params k l,
      Projection.clause s.table s.joins s.projection j = .ok columns k ∧
      s.condition scope k = .ok (condition, params) l ∧
      st = ⟨" ".intercalate (["SELECT " ++ columns, "FROM " ++ s.table] ++ s.joins.map Join.clause
        ++ condition ++ Plan.clause "ORDER BY" ((s.order.map Order.clause).getD "")
        ++ Plan.paging s.limit s.offset), params⟩ := by
  unfold Select.compile at h
  obtain ⟨columns, k, hcolumns, h⟩ := bind_eq_ok_iff.mp h
  obtain ⟨⟨condition, params⟩, l, hcondition, h⟩ := bind_eq_ok_iff.mp h
  obtain ⟨rfl, -⟩ := noted_eq_ok_iff.mp h
  exact ⟨columns, condition, params, k, l, hcolumns, hcondition, rfl⟩

theorem Update.operatorUpdate_eq_ok_iff {scope : Scope} {u : Update} {operations : Entries}
    {s : Statement} {j j' : Journal} :
    u.operatorUpdate scope operations j = .ok s j' ↔ ∃ a clause params,
      assignments operations = .ok a ∧ a.texts.isEmpty = false ∧
      Compile.collect a.params (Filter.compile scope "UPDATE" u.filter.toTree) j =
        .ok (clause, params) j' ∧
      s = ⟨u.head a.texts ++ clause, params⟩ := by
  unfold Update.operatorUpdate
  constructor
  · intro h
    obtain ⟨a, k, hlift, h⟩ := bind_eq_ok_iff.mp h
    obtain ⟨ha, rfl⟩ := liftExcept_eq_ok_iff.mp hlift
    by_cases he : a.texts.isEmpty = true
    · rw [if_pos he] at h
      exact absurd h throw_ne_ok
    · rw [if_neg he] at h
      obtain ⟨⟨clause, params⟩, k, hk, h⟩ := bind_eq_ok_iff.mp h
      obtain ⟨rfl, rfl⟩ := pure_eq_ok_iff.mp h
      exact ⟨a, clause, params, ha, by simpa using he, hk, rfl⟩
  · rintro ⟨a, clause, params, ha, he, hk, rfl⟩
    refine bind_eq_ok_iff.mpr ⟨a, j, liftExcept_eq_ok_iff.mpr ⟨ha, rfl⟩, ?_⟩
    rw [if_neg (by simp [he])]
    exact bind_eq_ok_iff.mpr ⟨(clause, params), j', hk, rfl⟩

theorem Update.bulkUpdate_eq_ok_iff {scope : Scope} {u : Update} {rows : List Entries}
    {s : Statement} {j j' : Journal} : u.bulkUpdate scope rows j = .ok s j' ↔
      rows.isEmpty = false ∧ (rowColumns u.idField rows).isEmpty = false ∧ ∃ a clause params,
        cases u.idField rows (rowColumns u.idField rows) = .ok a ∧
        Compile.collect [] (Filter.compile scope "UPDATE" u.filter.toTree) j =
          .ok (clause, params) j' ∧
        s = ⟨u.head a.texts ++ u.idField.text ++ " IN (" ++ Dialect.placeholders rows.length ++ ")"
            ++ (extraCondition clause params).1,
          a.params ++ rows.map (identityOf u.idField) ++ (extraCondition clause params).2⟩ := by
  unfold Update.bulkUpdate
  dsimp only
  constructor
  · intro h
    split at h
    · exact absurd h throw_ne_ok
    · split at h
      · exact absurd h throw_ne_ok
      · rename_i hrows hcolumns
        obtain ⟨a, k, hlift, h⟩ := bind_eq_ok_iff.mp h
        obtain ⟨ha, rfl⟩ := liftExcept_eq_ok_iff.mp hlift
        obtain ⟨⟨clause, params⟩, k, hk, h⟩ := bind_eq_ok_iff.mp h
        obtain ⟨rfl, rfl⟩ := pure_eq_ok_iff.mp h
        exact ⟨by simpa using hrows, by simpa using hcolumns, a, clause, params, ha, hk, rfl⟩
  · rintro ⟨hrows, hcolumns, a, clause, params, ha, hk, rfl⟩
    rw [if_neg (by simp [hrows]), if_neg (by simp [hcolumns])]
    refine bind_eq_ok_iff.mpr ⟨a, j, liftExcept_eq_ok_iff.mpr ⟨ha, rfl⟩, ?_⟩
    exact bind_eq_ok_iff.mpr ⟨(clause, params), j', hk, rfl⟩

def Update.body (scope : Scope) (u : Update) : Payload → Work Statement
  | .operations operations => u.operatorUpdate scope operations
  | .rows rows => u.bulkUpdate scope rows

theorem Update.compile_eq_ok_iff {scope : Scope} {u : Update} {st : Statement} {j j' : Journal} :
    u.compile scope j = .ok st j' ↔ u.filter.isEmpty = false ∧ ∃ payload s k,
      u.payload = some payload ∧ u.body scope payload j = .ok s k ∧
      st = ⟨s.sql ++ singleLimit u.single, s.params⟩ ∧ j' = k.note (.compiled .update st) := by
  unfold Update.compile
  by_cases h : u.filter.isEmpty = true
  · simp [h, throw_ne_ok]
  · have hne : u.filter.isEmpty = false := by simpa using h
    rw [if_neg h]
    constructor
    · intro hc
      refine ⟨hne, ?_⟩
      cases hp : u.payload with
      | none =>
        simp only [hp] at hc
        obtain ⟨_, _, hthrow, _⟩ := bind_eq_ok_iff.mp hc
        exact absurd hthrow throw_ne_ok
      | some payload =>
        have hbody : (u.body scope payload >>= fun s => do
            Work.note (.compiled .update ⟨s.sql ++ singleLimit u.single, s.params⟩)
            return (⟨s.sql ++ singleLimit u.single, s.params⟩ : Statement) : Work Statement) j =
            .ok st j' := by
          simp only [hp] at hc
          cases payload <;> exact hc
        obtain ⟨s, k, hs, hn⟩ := bind_eq_ok_iff.mp hbody
        obtain ⟨rfl, rfl⟩ := noted_eq_ok_iff.mp hn
        exact ⟨payload, s, k, rfl, hs, rfl, rfl⟩
    · rintro ⟨-, payload, s, k, hp, hs, rfl, rfl⟩
      cases payload <;> simp only [hp] <;> exact bind_eq_ok_iff.mpr ⟨s, k, hs, rfl⟩

def Update.StatesRows (u : Update) (rows : List Entries) (extra : String × List Value)
    (s : Statement) : Prop :=
  rows.isEmpty = false ∧ (rowColumns u.idField rows).isEmpty = false ∧
    ∃ a, cases u.idField rows (rowColumns u.idField rows) = .ok a ∧
      s = ⟨u.head a.texts ++ u.idField.text ++ " IN (" ++ Dialect.placeholders rows.length ++ ")"
          ++ extra.1 ++ singleLimit u.single,
        a.params ++ rows.map (identityOf u.idField) ++ extra.2⟩

theorem Update.compile_statesRows_iff {scope : Scope} {u : Update} {rows : List Entries}
    {clause : String} {params : List Value} {j k : Journal} (hfilter : u.filter.isEmpty = false)
    (hpayload : u.payload = some (.rows rows))
    (hcollect : Compile.collect [] (Filter.compile scope "UPDATE" u.filter.toTree) j =
      .ok (clause, params) k) {s : Statement} :
    (∃ k', u.compile scope j = .ok s k') ↔ u.StatesRows rows (extraCondition clause params) s := by
  constructor
  · rintro ⟨k', h⟩
    obtain ⟨-, payload, body, l, hrows, hbody, rfl, -⟩ := compile_eq_ok_iff.mp h
    obtain rfl := Option.some.inj (hpayload.symm.trans hrows)
    obtain ⟨hnonempty, hcolumns, a, clause', params', ha, hcollect', rfl⟩ :=
      bulkUpdate_eq_ok_iff.mp hbody
    obtain ⟨hclause, rfl⟩ := EStateM.Result.ok.inj (hcollect.symm.trans hcollect')
    obtain ⟨rfl, rfl⟩ := Prod.mk.inj hclause
    exact ⟨hnonempty, hcolumns, a, ha, rfl⟩
  · rintro ⟨hnonempty, hcolumns, a, ha, rfl⟩
    have hbody :=
      bulkUpdate_eq_ok_iff.mpr ⟨hnonempty, hcolumns, a, clause, params, ha, hcollect, rfl⟩
    exact ⟨_, compile_eq_ok_iff.mpr ⟨hfilter, _, _, k, hpayload, hbody, rfl, rfl⟩⟩

theorem except_bind_eq_ok_iff {α β : Type} {x : Except Error α} {f : α → Except Error β} {b : β} :
    (x >>= f) = .ok b ↔ ∃ a, x = .ok a ∧ f a = .ok b := by
  cases x with
  | ok a =>
    show f a = .ok b ↔ _
    simp
  | error e =>
    show Except.error e = .ok b ↔ _
    simp

theorem Insert.statement_eq_ok {i : Insert} {s : Statement} (h : i.statement = .ok s) :
    ∃ first rest names params upsert, i.documents = first :: rest ∧
      checkColumns (Entries.keys first) 1 rest = .ok () ∧
      Value.join ", " (Entries.keys first) = .ok names ∧
      rowParams (Entries.keys first) i.documents = .ok params ∧
      i.upsertClause (Entries.keys first) = .ok upsert ∧
      s = ⟨"INSERT INTO " ++ i.table ++ " (" ++ names ++ ") VALUES "
        ++ ", ".intercalate (i.documents.map fun _ =>
          "(" ++ Dialect.placeholders (Entries.keys first).length ++ ")") ++ upsert, params⟩ := by
  unfold Insert.statement at h
  split at h
  · cases h
  · cases h
  · rename_i first rest _ hdocuments
    obtain ⟨_, hcheck, h⟩ := except_bind_eq_ok_iff.mp h
    obtain ⟨names, hnames, h⟩ := except_bind_eq_ok_iff.mp h
    obtain ⟨params, hparams, h⟩ := except_bind_eq_ok_iff.mp h
    obtain ⟨upsert, hupsert, h⟩ := except_bind_eq_ok_iff.mp h
    exact ⟨first, rest, names, params, upsert, hdocuments, hcheck, hnames, hparams, hupsert,
      (Except.ok.inj h).symm⟩

theorem Insert.compile_eq_ok {i : Insert} {s : Statement} {j j' : Journal}
    (h : i.compile j = .ok s j') : i.statement = .ok s := by
  obtain ⟨t, k, hlift, h⟩ := bind_eq_ok_iff.mp h
  obtain ⟨ht, -⟩ := liftExcept_eq_ok_iff.mp hlift
  obtain ⟨rfl, -⟩ := noted_eq_ok_iff.mp h
  exact ht

theorem Insert.documentParams_length {document : Entries} {columns params : List Value}
    (h : documentParams document columns = .ok params) : params.length = columns.length := by
  induction columns generalizing params with
  | nil =>
    obtain rfl := Except.ok.inj h
    rfl
  | cons column columns ih =>
    obtain ⟨v, -, h⟩ := except_bind_eq_ok_iff.mp h
    obtain ⟨rest, hrest, h⟩ := except_bind_eq_ok_iff.mp h
    obtain rfl := Except.ok.inj h
    rw [List.length_cons, List.length_cons, ih hrest]

theorem Pipeline.compile_eq_ok {scope : Scope} {table : String} {stages : List Stage}
    {s : Statement} {j j' : Journal} (h : compile scope table stages j = .ok s j') :
    ∃ plan k, Plan.run scope table {} stages j = .ok plan k ∧ s = plan.statement table := by
  obtain ⟨plan, k, hrun, h⟩ := bind_eq_ok_iff.mp h
  obtain ⟨rfl, -⟩ := noted_eq_ok_iff.mp h
  exact ⟨plan, k, hrun, rfl⟩

end BoundQuery
