import BoundQuery.Proofs.Alike.Statement
import BoundQuery.Proofs.TextMap

/-! Documents that are inserted. An INSERT takes exactly the documents that have all the same keys,
and binds their values one document after the other, each in the order of the columns, which is that
of the first document's keys. -/
namespace BoundQuery.Insert

section Columns

variable {columns : List String} {index : Nat}

theorem lacking_map_str (names others : List String) :
    lacking (names.map .str) (others.map .str) = (names.filter (· ∉ others)).map .str := by
  have hkey : ((fun key : Value => !key.isIn (others.map .str)) ∘ Value.str) =
      fun name => decide (name ∉ others) := by
    funext name
    by_cases hmem : name ∈ others
    · have hin : (Value.str name).isIn (others.map .str) :=
        Value.isIn_map_str_iff.mpr ⟨name, hmem, rfl⟩
      simp [hin, hmem]
    · have hnot : ¬ (Value.str name).isIn (others.map .str) := by
        rintro hin
        obtain ⟨other, hother, heq⟩ := Value.isIn_map_str_iff.mp hin
        exact hmem (Value.str.inj heq ▸ hother)
      simp [hnot, hmem]
  rw [lacking, List.filter_map, hkey]

/-- The names in the first list that the second lacks, in rising order. -/
def lackingNames (names others : List String) : List String :=
  (names.filter (· ∉ others)).insertionSort (· ≤ ·)

theorem mem_lackingNames {names others : List String} {name : String} :
    name ∈ lackingNames names others ↔ name ∈ names ∧ name ∉ others := by
  simp [lackingNames, List.mem_insertionSort]

theorem lackingNames_pairwise {names others : List String} (h : names.Nodup) :
    (lackingNames names others).Pairwise (· < ·) := by
  have hsorted : (lackingNames names others).Pairwise (· ≤ ·) := List.pairwise_insertionSort _ _
  have hnodup : (lackingNames names others).Nodup :=
    (List.perm_insertionSort _ _).nodup_iff.mpr (h.filter _)
  refine (hsorted.and hnodup).imp fun {a b} hab => ?_
  exact String.not_le.mp fun hba => hab.2 (String.le_antisymm hab.1 hba)

/-- The order in which the names are given makes no difference to what is lacking. -/
theorem lackingNames_perm {names names' others others' : List String} (h : names.Perm names')
    (hothers : ∀ name, name ∈ others ↔ name ∈ others') :
    lackingNames names others = lackingNames names' others' := by
  have hfilter : names.filter (· ∉ others) = names.filter (· ∉ others') := by
    refine List.filter_congr fun name _ => ?_
    simp [hothers]
  have hperm : (lackingNames names others).Perm (lackingNames names' others') := by
    rw [lackingNames, hfilter]
    exact (List.perm_insertionSort _ _).trans
      ((h.filter _).trans (List.perm_insertionSort _ _).symm)
  exact hperm.eq_of_pairwise (fun _ _ _ _ hle hge => String.le_antisymm hle hge)
    (List.pairwise_insertionSort _ _) (List.pairwise_insertionSort _ _)

theorem sorted_lacking (names others : List String) :
    sorted (lacking (names.map .str) (others.map .str)) = .ok ((lackingNames names others).map .str) := by
  rw [lacking_map_str, sorted, Value.sorted?_map_str]
  rfl

theorem lacking_isEmpty (names others : List String) :
    (lacking (names.map .str) (others.map .str)).isEmpty ↔ ∀ name ∈ names, name ∈ others := by
  rw [lacking_map_str]
  simp

end Columns

section Check

variable {first document : TextMap} {index : Nat}

theorem lacking_isEmpty_iff_sameNames :
    (lacking (first.names.map .str) (document.names.map .str)).isEmpty &&
      (lacking (document.names.map .str) (first.names.map .str)).isEmpty ↔
    document.SameNames first := by
  rw [Bool.and_eq_true, lacking_isEmpty, lacking_isEmpty]
  constructor
  · rintro ⟨hfirst, hdocument⟩ name
    exact ⟨hdocument name, hfirst name⟩
  · intro h
    exact ⟨fun name => (h name).mpr, fun name => (h name).mp⟩

theorem checkColumns_cons_of_sameNames (h : document.SameNames first) (rest : List Entries) :
    checkColumns (first.names.map .str) index (document.entries :: rest) =
      checkColumns (first.names.map .str) (index + 1) rest := by
  rw [checkColumns, TextMap.keys_entries]
  exact if_pos (lacking_isEmpty_iff_sameNames.mpr h)

/-- The error names the document, the keys that it lacks and those that it has in excess. -/
theorem checkColumns_cons_of_not_sameNames (h : ¬ document.SameNames first) (rest : List Entries) :
    checkColumns (first.names.map .str) index (document.entries :: rest) =
      .error (configurationError (.columnMismatch index
        ((lackingNames first.names document.names).map .str)
        ((lackingNames document.names first.names).map .str))) := by
  rw [checkColumns, TextMap.keys_entries]
  refine (if_neg (lacking_isEmpty_iff_sameNames.not.mpr h)).trans ?_
  rw [sorted_lacking, sorted_lacking]
  rfl

/-- The documents before the first one that differs are passed. -/
theorem checkColumns_append {before : List TextMap} (h : ∀ d ∈ before, d.SameNames first)
    (rest : List Entries) :
    checkColumns (first.names.map .str) index (before.map TextMap.entries ++ rest) =
      checkColumns (first.names.map .str) (index + before.length) rest := by
  induction before generalizing index with
  | nil => rfl
  | cons d before ih =>
    obtain ⟨hd, hbefore⟩ := List.forall_mem_cons.mp h
    rw [List.map_cons, List.cons_append, checkColumns_cons_of_sameNames hd, ih hbefore,
      List.length_cons, Nat.add_right_comm, Nat.add_assoc]

theorem checkColumns_eq_ok_iff {documents : List TextMap} :
    checkColumns (first.names.map .str) index (documents.map TextMap.entries) = .ok () ↔
      ∀ d ∈ documents, d.SameNames first := by
  induction documents generalizing index with
  | nil => simp [checkColumns]
  | cons d documents ih =>
    rw [List.map_cons, List.forall_mem_cons]
    by_cases hd : d.SameNames first
    · rw [checkColumns_cons_of_sameNames hd, ih]
      exact (and_iff_right hd).symm
    · rw [checkColumns_cons_of_not_sameNames hd]
      simp [hd]

/-- What is found of the documents does not depend on the order of their keys. -/
theorem checkColumns_reorders {documents documents' : List TextMap}
    (h : List.Forall₂ TextMap.Reorders documents documents') :
    checkColumns (first.names.map .str) index (documents.map TextMap.entries) =
      checkColumns (first.names.map .str) index (documents'.map TextMap.entries) := by
  induction h generalizing index with
  | nil => rfl
  | @cons d d' documents documents' hd _ ih =>
    have hnames : ∀ name, name ∈ d.names ↔ name ∈ d'.names := fun name => hd.names_perm.mem_iff
    rw [List.map_cons, List.map_cons]
    by_cases hsame : d.SameNames first
    · have hsame' : d'.SameNames first := fun name => (hnames name).symm.trans (hsame name)
      rw [checkColumns_cons_of_sameNames hsame, checkColumns_cons_of_sameNames hsame', ih]
    · have hsame' : ¬ d'.SameNames first :=
        fun hsame' => hsame fun name => (hnames name).trans (hsame' name)
      -- Both are refused alike: the names in the error are sorted.
      rw [checkColumns_cons_of_not_sameNames hsame, checkColumns_cons_of_not_sameNames hsame',
        lackingNames_perm (List.Perm.refl _) hnames,
        lackingNames_perm hd.names_perm fun _ => Iff.rfl]

end Check

section Values

variable {columns : List String} {d d' : TextMap}

theorem documentParams_reorders (h : d.Reorders d') (columns : List String) :
    documentParams d.entries (columns.map .str) = documentParams d'.entries (columns.map .str) := by
  induction columns with
  | nil => rfl
  | cons column columns ih =>
    rw [List.map_cons, documentParams, documentParams, TextMap.get?_entries, TextMap.get?_entries,
      h.get?_eq, ih]

theorem rowParams_reorders {documents documents' : List TextMap}
    (h : List.Forall₂ TextMap.Reorders documents documents') (columns : List String) :
    rowParams (columns.map .str) (documents.map TextMap.entries) =
      rowParams (columns.map .str) (documents'.map TextMap.entries) := by
  induction h with
  | nil => rfl
  | cons hd _ ih =>
    rw [List.map_cons, List.map_cons, rowParams, rowParams, documentParams_reorders hd, ih]

theorem exists_documentParams (h : d.TextKeyed) (columns : List String) :
    ∃ row, documentParams d.entries (columns.map .str) = .ok row := by
  induction columns with
  | nil => exact ⟨[], rfl⟩
  | cons column columns ih =>
    obtain ⟨w, hw⟩ := Value.exists_storedAs (h.getD column)
    obtain ⟨row, hrow⟩ := ih
    refine ⟨w :: row, ?_⟩
    rw [List.map_cons, documentParams, TextMap.get?_entries, Value.stored_eq_ok_iff.mpr hw, hrow]
    rfl

theorem exists_rowParams {documents : List TextMap} (h : ∀ d ∈ documents, d.TextKeyed)
    (columns : List String) :
    ∃ params, rowParams (columns.map .str) (documents.map TextMap.entries) = .ok params := by
  induction documents with
  | nil => exact ⟨[], rfl⟩
  | cons d documents ih =>
    obtain ⟨hd, hrest⟩ := List.forall_mem_cons.mp h
    obtain ⟨row, hrow⟩ := exists_documentParams hd columns
    obtain ⟨params, hparams⟩ := ih hrest
    refine ⟨row ++ params, ?_⟩
    rw [List.map_cons, rowParams, hrow, hparams]
    rfl

theorem documentParams_getElem? {row : List Value} {col : Nat} {name : String}
    (h : documentParams d.entries (columns.map .str) = .ok row) (hname : columns[col]? = some name) :
    ∃ w, ((d.get? name).getD .null).StoredAs w ∧ row[col]? = some w := by
  induction columns generalizing row col with
  | nil => cases hname
  | cons column columns ih =>
    rw [List.map_cons, documentParams, TextMap.get?_entries] at h
    obtain ⟨w, hw, h⟩ := except_bind_eq_ok_iff.mp h
    obtain ⟨more, hmore, h⟩ := except_bind_eq_ok_iff.mp h
    obtain rfl := Except.ok.inj h
    cases col with
    | zero =>
      obtain rfl := Option.some.inj hname
      exact ⟨w, Value.stored_eq_ok_iff.mp hw, rfl⟩
    | succ col =>
      obtain ⟨w', hw', hget⟩ := ih hmore hname
      exact ⟨w', hw', hget⟩

/-- The values stand row by row, and in each row in the order of the columns. -/
theorem rowParams_getElem? {documents : List TextMap} {params : List Value} {row col : Nat}
    {name : String} (h : rowParams (columns.map .str) (documents.map TextMap.entries) = .ok params)
    (hd : documents[row]? = some d) (hname : columns[col]? = some name) :
    ∃ w, ((d.get? name).getD .null).StoredAs w ∧
      params[row * columns.length + col]? = some w := by
  induction documents generalizing params row with
  | nil => cases hd
  | cons first documents ih =>
    rw [List.map_cons, rowParams] at h
    obtain ⟨values, hvalues, h⟩ := except_bind_eq_ok_iff.mp h
    obtain ⟨more, hmore, h⟩ := except_bind_eq_ok_iff.mp h
    obtain rfl := Except.ok.inj h
    have hlength : values.length = columns.length := by
      rw [documentParams_length hvalues, List.length_map]
    cases row with
    | zero =>
      obtain rfl := Option.some.inj hd
      obtain ⟨w, hw, hget⟩ := documentParams_getElem? hvalues hname
      have hcol : col < values.length := (List.getElem?_eq_some_iff.mp hget).1
      refine ⟨w, hw, ?_⟩
      rwa [Nat.zero_mul, Nat.zero_add, List.getElem?_append_left hcol]
    | succ row =>
      obtain ⟨w, hw, hget⟩ := ih hmore hd
      have hindex : (row + 1) * columns.length + col =
          values.length + (row * columns.length + col) := by
        rw [hlength, Nat.succ_mul]
        omega
      refine ⟨w, hw, ?_⟩
      rwa [hindex, List.getElem?_append_right (Nat.le_add_right _ _), Nat.add_sub_cancel_left]

end Values

section Upsert

variable {columns : List String}

theorem unknownFields_eq_nil_iff {fields : List Value} :
    unknownFields (columns.map .str) fields = .ok [] ↔
      ∀ field ∈ fields, ∃ name ∈ columns, field = .str name := by
  induction fields with
  | nil => simp [unknownFields]
  | cons field fields ih =>
    rw [List.forall_mem_cons, ← ih, ← Value.isIn_map_str_iff, unknownFields]
    by_cases hin : field.isIn (columns.map .str)
    · obtain ⟨name, -, rfl⟩ := Value.isIn_map_str_iff.mp hin
      have hkey : (Value.str name).isKey = true := rfl
      simp [hin, hkey]
    · cases hkey : field.isKey with
      | false => simp [hin]
      | true =>
        simp only [hin, Bool.not_true, Bool.false_eq_true, if_false, false_and, iff_false]
        intro hnil
        obtain ⟨more, -, hmore⟩ := except_bind_eq_ok_iff.mp hnil
        cases hmore

theorem exists_upsertClause_iff_fields {i : Insert} (h : i.upsert = true) :
    (∃ text, i.upsertClause (columns.map .str) = .ok text) ↔
      i.upsertFields.getD (columns.map .str) ≠ [] ∧
        ∀ field ∈ i.upsertFields.getD (columns.map .str), ∃ name ∈ columns, field = .str name := by
  rw [upsertClause, if_pos h]
  generalize i.upsertFields.getD (columns.map .str) = fields
  cases fields with
  | nil => simp
  | cons field fields =>
    rw [← unknownFields_eq_nil_iff]
    constructor
    · rintro ⟨text, htext⟩
      obtain ⟨unknown, hunknown, htext⟩ := except_bind_eq_ok_iff.mp htext
      cases unknown with
      | nil => exact ⟨List.cons_ne_nil _ _, hunknown⟩
      | cons v vs => cases htext
    · rintro ⟨-, hunknown⟩
      refine ⟨" " ++ Dialect.upsert (field :: fields), ?_⟩
      dsimp only
      rw [hunknown]
      rfl

/-- The columns to refresh, where any are named, are some that are inserted. -/
def Refreshable (i : Insert) (columns : List String) : Prop :=
  i.upsert = true → ∀ fields, i.upsertFields = some fields →
    fields ≠ [] ∧ ∀ field ∈ fields, ∃ name ∈ columns, field = .str name

theorem exists_upsertClause_iff {i : Insert} (hcolumns : columns ≠ []) :
    (∃ text, i.upsertClause (columns.map .str) = .ok text) ↔ i.Refreshable columns := by
  by_cases hupsert : i.upsert = true
  · rw [exists_upsertClause_iff_fields hupsert]
    cases hfields : i.upsertFields with
    | none => simp [Refreshable, hfields, hcolumns]
    | some fields => simp [Refreshable, hfields, hupsert]
  · simp [upsertClause, Refreshable, hupsert]

end Upsert

section Statement

variable {i : Insert} {first : TextMap} {rest : List TextMap}

def text (i : Insert) (columns : List String) (rows : Nat) (upsert : String) : String :=
  "INSERT INTO " ++ i.table ++ " (" ++ ", ".intercalate columns ++ ") VALUES "
    ++ ", ".intercalate (List.replicate rows ("(" ++ Dialect.placeholders columns.length ++ ")"))
    ++ upsert

theorem statement_eq (hdocuments : i.documents = (first :: rest).map TextMap.entries)
    (hfirst : first.names ≠ []) : i.statement = do
      checkColumns (first.names.map .str) 1 (rest.map TextMap.entries)
      let params ← rowParams (first.names.map .str) ((first :: rest).map TextMap.entries)
      let upsert ← i.upsertClause (first.names.map .str)
      return ⟨i.text first.names (first :: rest).length upsert, params⟩ := by
  have hentries : first.entries ≠ [] := by
    intro hnil
    have hkeys := first.keys_entries
    rw [hnil] at hkeys
    exact hfirst (List.map_eq_nil_iff.mp hkeys.symm)
  obtain ⟨entry, entries, hcons⟩ := List.exists_cons_of_ne_nil hentries
  have hkeys := first.keys_entries
  rw [List.map_cons, hcons] at hdocuments
  rw [hcons] at hkeys
  have hrows : ((entry :: entries) :: rest.map TextMap.entries).map
      (fun _ => "(" ++ Dialect.placeholders (first.names.map Value.str).length ++ ")") =
      List.replicate (first :: rest).length ("(" ++ Dialect.placeholders first.names.length ++ ")") := by
    rw [List.map_const', List.length_cons, List.length_map, List.length_map, List.length_cons]
  rw [statement, hdocuments]
  dsimp only
  rw [hkeys, Value.join_map_str, hrows, List.map_cons, hcons]
  rfl

theorem statement_eq_ok_iff (hdocuments : i.documents = (first :: rest).map TextMap.entries)
    (hfirst : first.names ≠ []) {s : Statement} : i.statement = .ok s ↔
      (∀ d ∈ rest, d.SameNames first) ∧ ∃ params upsert,
        rowParams (first.names.map .str) ((first :: rest).map TextMap.entries) = .ok params ∧
        i.upsertClause (first.names.map .str) = .ok upsert ∧
        s = ⟨i.text first.names (first :: rest).length upsert, params⟩ := by
  have hcheck : checkColumns (first.names.map .str) 1 (rest.map TextMap.entries) = .ok () ↔
      ∀ d ∈ rest, d.SameNames first := checkColumns_eq_ok_iff
  rw [statement_eq hdocuments hfirst, except_bind_eq_ok_iff, ← hcheck]
  constructor
  · rintro ⟨⟨⟩, hcheck, h⟩
    obtain ⟨params, hparams, h⟩ := except_bind_eq_ok_iff.mp h
    obtain ⟨upsert, hupsert, h⟩ := except_bind_eq_ok_iff.mp h
    exact ⟨hcheck, params, upsert, hparams, hupsert, (Except.ok.inj h).symm⟩
  · rintro ⟨hcheck, params, upsert, hparams, hupsert, rfl⟩
    refine ⟨⟨⟩, hcheck, except_bind_eq_ok_iff.mpr ⟨params, hparams, ?_⟩⟩
    exact except_bind_eq_ok_iff.mpr ⟨upsert, hupsert, rfl⟩

/-- Without a first document, or with an empty one, there is no statement. -/
theorem statement_ne_ok {documents : List TextMap}
    (hdocuments : i.documents = documents.map TextMap.entries)
    (h : ∀ first rest, documents = first :: rest → first.names = []) (s : Statement) :
    i.statement ≠ .ok s := by
  cases documents with
  | nil => simp [statement, hdocuments]
  | cons first rest =>
    have hentries : first.entries = [] := by
      simpa [TextMap.names, TextMap.entries, Fields.toEntries] using h first rest rfl
    simp [statement, hdocuments, hentries]

theorem exists_statement_iff {documents : List TextMap}
    (hdocuments : i.documents = documents.map TextMap.entries)
    (htexts : ∀ d ∈ documents, d.TextKeyed) : (∃ s, i.statement = .ok s) ↔
      ∃ first rest, documents = first :: rest ∧ first.names ≠ [] ∧
        (∀ d ∈ rest, d.SameNames first) ∧ i.Refreshable first.names := by
  constructor
  · rintro ⟨s, hs⟩
    have hexists : ∃ first rest, documents = first :: rest ∧ first.names ≠ [] := by
      by_contra hnot
      push Not at hnot
      exact statement_ne_ok hdocuments hnot s hs
    obtain ⟨first, rest, rfl, hfirst⟩ := hexists
    obtain ⟨hsame, params, upsert, -, hupsert, -⟩ := (statement_eq_ok_iff hdocuments hfirst).mp hs
    exact ⟨first, rest, rfl, hfirst, hsame, (exists_upsertClause_iff hfirst).mp ⟨upsert, hupsert⟩⟩
  · rintro ⟨first, rest, rfl, hfirst, hsame, hrefreshable⟩
    obtain ⟨params, hparams⟩ := exists_rowParams htexts first.names
    obtain ⟨upsert, hupsert⟩ := (exists_upsertClause_iff hfirst).mpr hrefreshable
    exact ⟨_, (statement_eq_ok_iff hdocuments hfirst).mpr
      ⟨hsame, params, upsert, hparams, hupsert, rfl⟩⟩

/-- In what order the documents after the first have their keys makes no difference. -/
theorem statement_reorders {rest' : List TextMap}
    (hdocuments : i.documents = (first :: rest).map TextMap.entries)
    (h : List.Forall₂ TextMap.Reorders rest rest') :
    { i with documents := (first :: rest').map TextMap.entries }.statement = i.statement := by
  by_cases hfirst : first.names = []
  · have hentries : first.entries = [] := by
      simpa [TextMap.names, TextMap.entries, Fields.toEntries] using hfirst
    simp [statement, hdocuments, hentries]
  · have hrows := rowParams_reorders (.cons (List.Perm.refl first.fields) h) first.names
    rw [statement_eq rfl hfirst, statement_eq hdocuments hfirst, checkColumns_reorders h, hrows,
      List.length_cons, List.length_cons, h.length_eq]
    rfl

/-- The first document that differs is named, with the keys that it lacks or has in excess. -/
theorem statement_mismatch {before after : List TextMap} {d : TextMap}
    (hdocuments : i.documents = (first :: (before ++ d :: after)).map TextMap.entries)
    (hfirst : first.names ≠ []) (hbefore : ∀ b ∈ before, b.SameNames first)
    (hd : ¬ d.SameNames first) :
    i.statement = .error (configurationError (.columnMismatch (before.length + 1)
      ((lackingNames first.names d.names).map .str)
      ((lackingNames d.names first.names).map .str))) := by
  rw [statement_eq hdocuments hfirst, List.map_append, checkColumns_append hbefore, List.map_cons,
    checkColumns_cons_of_not_sameNames hd, Nat.add_comm]
  rfl

theorem compile_eq (i : Insert) (j : Journal) : i.compile j =
    match i.statement with
    | .ok s => .ok s (j.note (.compiled .insert s))
    | .error e => .error e j := by
  unfold compile
  cases i.statement <;> rfl

theorem exists_compile_iff {j : Journal} :
    (∃ s j', i.compile j = .ok s j') ↔ ∃ s, i.statement = .ok s := by
  rw [compile_eq]
  cases i.statement <;> simp

/-- Documents are inserted if there is one, the first has a key, all have the same keys, and the
columns to refresh are among them. The values are bound row by row: for each document, in the order
of the first one's keys, the stored forms of its values, whatever the order of its own keys. The
first document with other keys is named in the error, with what it lacks and has in excess. -/
theorem insert_binds_uniform_documents_by_rows (i : Insert) (documents : List TextMap)
    (hdocuments : i.documents = documents.map TextMap.entries)
    (htexts : ∀ d ∈ documents, d.TextKeyed) (j : Journal) :
    ((∃ s j', i.compile j = .ok s j') ↔
      ∃ first rest, documents = first :: rest ∧ first.names ≠ [] ∧
        (∀ d ∈ rest, d.SameNames first) ∧ i.Refreshable first.names) ∧
    (∀ s j', i.compile j = .ok s j' → ∃ first rest upsert, documents = first :: rest ∧
      i.upsertClause (first.names.map .str) = .ok upsert ∧
      s.sql = i.text first.names documents.length upsert ∧
      s.params.length = documents.length * first.names.length ∧
      ∀ row col d name, documents[row]? = some d → first.names[col]? = some name →
        ∃ v w, d.get? name = some v ∧ v.StoredAs w ∧
          s.params[row * first.names.length + col]? = some w) ∧
    (∀ first rest rest', documents = first :: rest → List.Forall₂ TextMap.Reorders rest rest' →
      { i with documents := (first :: rest').map TextMap.entries }.compile = i.compile) ∧
    (∀ first before d after, documents = first :: (before ++ d :: after) → first.names ≠ [] →
      (∀ b ∈ before, b.SameNames first) → ¬ d.SameNames first →
      ∃ missing extra : List String,
        missing.Pairwise (· < ·) ∧ (∀ name, name ∈ missing ↔ name ∈ first.names ∧ name ∉ d.names) ∧
        extra.Pairwise (· < ·) ∧ (∀ name, name ∈ extra ↔ name ∈ d.names ∧ name ∉ first.names) ∧
        i.compile j = .error (configurationError
          (.columnMismatch (before.length + 1) (missing.map .str) (extra.map .str))) j) := by
  refine ⟨exists_compile_iff.trans (exists_statement_iff hdocuments htexts), fun s j' hs => ?_,
    fun first rest rest' hrest h => ?_, fun first before d after hsplit hfirst hbefore hd => ?_⟩
  · have hstatement := compile_eq_ok hs
    obtain ⟨first, rest, rfl, hfirst, hsame, -⟩ :=
      (exists_statement_iff hdocuments htexts).mp ⟨s, hstatement⟩
    obtain ⟨-, params, upsert, hparams, hupsert, rfl⟩ :=
      (statement_eq_ok_iff hdocuments hfirst).mp hstatement
    refine ⟨first, rest, upsert, rfl, hupsert, rfl, ?_, fun row col d name hd hname => ?_⟩
    · simpa using rowParams_length hparams
    · have hcolumn := List.mem_of_getElem? hname
      have hmem : name ∈ d.names := by
        rcases List.mem_cons.mp (List.mem_of_getElem? hd) with rfl | hrest
        · exact hcolumn
        · exact (hsame d hrest name).mpr hcolumn
      obtain ⟨v, hv⟩ := Option.isSome_iff_exists.mp (TextMap.isSome_get?_iff.mpr hmem)
      obtain ⟨w, hw, hget⟩ := rowParams_getElem? hparams hd hname
      rw [hv] at hw
      exact ⟨v, w, hv, hw, hget⟩
  · subst hrest
    rw [compile, compile, statement_reorders hdocuments h]
  · subst hsplit
    refine ⟨lackingNames first.names d.names, lackingNames d.names first.names,
      lackingNames_pairwise first.distinct, fun _ => mem_lackingNames,
      lackingNames_pairwise d.distinct, fun _ => mem_lackingNames, ?_⟩
    rw [compile_eq, statement_mismatch hdocuments hfirst hbefore hd]

def ann : TextMap :=
  ⟨[("name", .str "Ann"), ("tags", .list [.map [(.str "n", .int 1)]])], by decide⟩

def bo : TextMap := ⟨[("name", .str "Bo"), ("tags", .list [])], by decide⟩

def boReordered : TextMap := ⟨[("tags", .list []), ("name", .str "Bo")], by decide⟩

def cy : TextMap := ⟨[("Name", .str "Cy"), ("tags", .null), ("age", .int 7)], by decide⟩

def users (documents : List TextMap) : Insert where
  table := "users"
  documents := documents.map TextMap.entries

theorem users_textKeyed : ∀ d ∈ [ann, boReordered, cy], d.TextKeyed := by
  simp only [List.forall_mem_cons, TextMap.TextKeyed, ann, boReordered, cy]
  simp [Filter.TextKeyed, Filter.ItemsTextKeyed, Filter.EntriesTextKeyed]

theorem boReordered_sameNames : boReordered.SameNames ann := by
  intro name
  simp [boReordered, ann, TextMap.names, or_comm]

theorem cy_not_sameNames : ¬ cy.SameNames ann := by
  intro h
  have hname := (h "age").mp (by decide)
  revert hname
  decide

theorem users_bound_by_rows :
    (∃ s j', (users [ann, boReordered]).compile {} = .ok s j' ∧
      s.sql = "INSERT INTO users (name, tags) VALUES (?, ?), (?, ?)" ∧
      s.params.length = 4 ∧ s.params[2]? = some (.str "Bo")) ∧
    (users [ann, bo]).compile = (users [ann, boReordered]).compile ∧
    (∃ missing extra : List String, "name" ∈ missing ∧ "Name" ∈ extra ∧ "age" ∈ extra ∧ "tags" ∉ extra ∧
      (users [ann, boReordered, cy]).compile {} = .error (configurationError
        (.columnMismatch 2 (missing.map .str) (extra.map .str))) {}) := by
  have htexts : ∀ d ∈ [ann, boReordered], d.TextKeyed := by
    intro d hd
    exact users_textKeyed d (List.mem_of_mem_take (i := 2) hd)
  obtain ⟨hok, hrows, hreorders, -⟩ :=
    insert_binds_uniform_documents_by_rows (users [ann, boReordered]) _ rfl htexts {}
  obtain ⟨-, -, -, hmismatch⟩ :=
    insert_binds_uniform_documents_by_rows (users [ann, boReordered, cy]) _ rfl users_textKeyed {}
  refine ⟨?_, ?_, ?_⟩
  · obtain ⟨s, j', hs⟩ := hok.mpr ⟨ann, [boReordered], rfl, by decide, by
      simpa using boReordered_sameNames, nofun⟩
    obtain ⟨first, rest, upsert, hsplit, hupsert, hsql, hlength, hvalues⟩ := hrows s j' hs
    obtain ⟨rfl, rfl⟩ := List.cons.inj hsplit
    obtain rfl : "" = upsert := Except.ok.inj hupsert
    obtain ⟨v, w, hv, hw, hget⟩ := hvalues 1 0 boReordered "name" rfl rfl
    obtain rfl := Option.some.inj hv
    obtain rfl := Except.ok.inj (Value.stored_eq_ok_iff.mpr hw)
    exact ⟨s, j', hs, hsql.trans (by decide), hlength, hget⟩
  · exact hreorders ann [boReordered] [bo] rfl (.cons (.swap _ _ _) .nil)
  · obtain ⟨missing, extra, -, hmissing, -, hextra, herror⟩ := hmismatch ann [boReordered] cy [] rfl
      (by decide) (by simpa using boReordered_sameNames) cy_not_sameNames
    exact ⟨missing, extra, (hmissing _).mpr (by decide), (hextra _).mpr (by decide),
      (hextra _).mpr (by decide), fun h => absurd ((hextra _).mp h) (by decide), herror⟩

end Statement

end BoundQuery.Insert
