import BoundQuery.Proofs.Compiled
import Mathlib.Data.List.TakeDrop

/-! Columns beside joins. Each is written with the table it is taken from, and with a title. A
source is cut at its first dot, so the table or join that it starts with is found if there is no dot
in that name. A source that starts with a dotted name is taken for a column of the table. -/
namespace BoundQuery

namespace Text

theorem splitAtDot_eq {q : String} (hq : '.' ∉ q.toList) (column : String) :
    splitAtDot (q ++ "." ++ column) = (q, column) := by
  have hplain : ∀ c ∈ q.toList, (c != '.') = true := by
    intro c hc
    have hne : c ≠ '.' := fun h => hq (h ▸ hc)
    simpa using hne
  have htext : (q ++ "." ++ column).toList = q.toList ++ '.' :: column.toList := by simp
  rw [splitAtDot, htext, List.span_eq_takeWhile_dropWhile, List.takeWhile_append_of_pos hplain,
    List.dropWhile_append_of_pos hplain]
  simp

theorem splitAtDot_undotted (s : String) : '.' ∉ (splitAtDot s).1.toList := by
  rw [splitAtDot, List.span_eq_takeWhile_dropWhile, String.toList_ofList]
  intro hdot
  have hall := List.all_eq_true.mp (List.all_takeWhile (p := (· != '.')) (l := s.toList)) '.' hdot
  exact absurd hall (by decide)

theorem eq_of_splitAtDot {s : String} (h : (splitAtDot s).2 ≠ "") :
    s = (splitAtDot s).1 ++ "." ++ (splitAtDot s).2 := by
  rw [splitAtDot, List.span_eq_takeWhile_dropWhile] at h ⊢
  cases hrest : s.toList.dropWhile (· != '.') with
  | nil =>
    rw [hrest] at h
    exact absurd rfl h
  | cons c rest =>
    have hc : c = '.' := by
      have hhead := List.head?_dropWhile_not (· != '.') s.toList
      rw [hrest] at hhead
      simpa using hhead
    subst hc
    have hsplit := List.takeWhile_append_dropWhile (p := (· != '.')) (l := s.toList)
    rw [hrest] at hsplit
    apply String.toList_inj.mp
    simpa using hsplit.symm

theorem underscored_undotted (s : String) : '.' ∉ (underscored s).toList := by
  rw [underscored, String.toList_ofList, List.mem_map]
  intro ⟨c, _, hc⟩
  by_cases hdot : c == '.'
  · rw [if_pos hdot] at hc
    exact absurd hc (by decide)
  · rw [if_neg hdot] at hc
    exact hdot (by simp [hc])

end Text

structure Written where
  qualifier : String
  column : String
  title : String

def Written.text (w : Written) : String := w.qualifier ++ "." ++ w.column ++ " AS " ++ w.title

/-- A source that starts with the table or with the name of a join. -/
structure Addressed (table : String) (names : List String) (source q column : String) : Prop where
  source_eq : source = q ++ "." ++ column
  known : q = table ∨ q ∈ names
  column_ne : column ≠ ""

/-- A source is written as it is if it starts with a name without a dot, and else as a column of the
table. It is known by its own name, or by one made of the table and the column. -/
structure Written.Places (table : String) (names : List String) (source : String)
    (own : Option String) (w : Written) : Prop where
  known : w.qualifier = table ∨ w.qualifier ∈ names
  once : ∀ q column, Addressed table names source q column → '.' ∉ q.toList →
    w.qualifier = q ∧ w.column = column
  otherwise : (∀ q column, Addressed table names source q column → '.' ∈ q.toList) →
    w.qualifier = table ∧ w.column = source
  title_eq : w.title = own.getD (w.qualifier ++ "_" ++ Text.underscored w.column)
  title_empty_iff : w.title = "" ↔ own = some ""
  title_dotted_iff : own = none → ('.' ∈ w.title.toList ↔ '.' ∈ w.qualifier.toList)
  dotted : '.' ∈ w.qualifier.toList → w.qualifier = table ∧ w.column = source

namespace Column

theorem qualifier_eq (source table : String) (names : List String) :
    qualifier source table names =
      if (Text.splitAtDot source).2 ≠ "" ∧
          ((Text.splitAtDot source).1 ∈ names ∨ (Text.splitAtDot source).1 = table) then
        Text.splitAtDot source
      else (table, source) := by
  unfold qualifier
  generalize Text.splitAtDot source = cut
  rfl

theorem qualifier_of_addressed {table source q column : String} {names : List String}
    (h : Addressed table names source q column) (hq : '.' ∉ q.toList) :
    qualifier source table names = (q, column) := by
  have hsplit : Text.splitAtDot source = (q, column) := by
    rw [h.source_eq]
    exact Text.splitAtDot_eq hq column
  rw [qualifier_eq, hsplit, if_pos ⟨h.column_ne, h.known.symm⟩]

/-- The source is either cut after a name without a dot, or left whole. -/
theorem qualifier_cases (source table : String) (names : List String) :
    (∃ q column, Addressed table names source q column ∧ '.' ∉ q.toList ∧
      qualifier source table names = (q, column)) ∨
    (∀ q column, Addressed table names source q column → '.' ∈ q.toList) ∧
      qualifier source table names = (table, source) := by
  by_cases hnamed : ∃ q column, Addressed table names source q column ∧ '.' ∉ q.toList
  · have ⟨q, column, haddressed, hq⟩ := hnamed
    exact .inl ⟨q, column, haddressed, hq, qualifier_of_addressed haddressed hq⟩
  · refine .inr ⟨?_, ?_⟩
    · intro q column haddressed
      by_cases hq : '.' ∈ q.toList
      · exact hq
      · exact absurd ⟨q, column, haddressed, hq⟩ hnamed
    · rw [qualifier_eq, if_neg]
      intro ⟨htail, hhead⟩
      have haddressed : Addressed table names source (Text.splitAtDot source).1
          (Text.splitAtDot source).2 := ⟨Text.eq_of_splitAtDot htail, hhead.symm, htail⟩
      exact hnamed ⟨_, _, haddressed, Text.splitAtDot_undotted source⟩

/-- A column that is asked for by a text, with a name of its own or without. -/
def ofText (wanted : String × Option String) : Column :=
  ⟨.str wanted.1, (wanted.2.map Value.str).getD .null⟩

def written (table : String) (names : List String) (wanted : String × Option String) : Written :=
  let cut := qualifier wanted.1 table names
  ⟨cut.1, cut.2, wanted.2.getD (cut.1 ++ "_" ++ Text.underscored cut.2)⟩

theorem qualified_ofText (table : String) (names : List String) (wanted : String × Option String) :
    (ofText wanted).qualified table names = .ok (written table names wanted).text := by
  obtain ⟨source, own⟩ := wanted
  unfold qualified written ofText Written.text
  cases own with
  | none => simp only [Option.map_none, Option.getD_none, titleFor]
  | some title => simp only [Option.map_some, Option.getD_some, titleFor, Value.text_str]

theorem qualifiedAll_ofText (table : String) (names : List String)
    (wanted : List (String × Option String)) :
    qualifiedAll table names (wanted.map ofText) =
      .ok (wanted.map fun a => (written table names a).text) := by
  induction wanted with
  | nil => rfl
  | cons a wanted ih =>
    rw [List.map_cons, qualifiedAll, qualified_ofText, ih]
    rfl

theorem titled_empty_iff (q column : String) (own : Option String) :
    own.getD (q ++ "_" ++ Text.underscored column) = "" ↔ own = some "" := by
  cases own with
  | none => simp
  | some title => simp

theorem derived_dotted_iff (q column : String) :
    '.' ∈ (q ++ "_" ++ Text.underscored column).toList ↔ '.' ∈ q.toList := by
  have hcolumn := Text.underscored_undotted column
  simp [hcolumn]

theorem written_places (table : String) (names : List String) (source : String)
    (own : Option String) : (written table names (source, own)).Places table names source own := by
  obtain ⟨w, hw⟩ : ∃ w, w = written table names (source, own) := ⟨_, rfl⟩
  have hfst : w.qualifier = (qualifier source table names).1 := by rw [hw, written]
  have hsnd : w.column = (qualifier source table names).2 := by rw [hw, written]
  have htitle : w.title = own.getD (w.qualifier ++ "_" ++ Text.underscored w.column) := by
    rw [hw, written]
  rw [← hw]
  have honce : ∀ q column, Addressed table names source q column → '.' ∉ q.toList →
      w.qualifier = q ∧ w.column = column := by
    intro q column haddressed hq
    rw [hfst, hsnd, qualifier_of_addressed haddressed hq]
    exact ⟨rfl, rfl⟩
  have hempty : w.title = "" ↔ own = some "" := by
    rw [htitle]
    exact titled_empty_iff _ _ own
  have hdotted : own = none → ('.' ∈ w.title.toList ↔ '.' ∈ w.qualifier.toList) := by
    intro hown
    rw [htitle, hown]
    exact derived_dotted_iff _ _
  cases qualifier_cases source table names with
  | inl hcut =>
    have ⟨q, column, haddressed, hq, heq⟩ := hcut
    have hqualifier : w.qualifier = q := by rw [hfst, heq]
    refine ⟨?_, honce, ?_, htitle, hempty, hdotted, ?_⟩
    · rw [hqualifier]
      exact haddressed.known
    · intro hall
      exact absurd (hall q column haddressed) hq
    · rw [hqualifier]
      intro hdot
      exact absurd hdot hq
  | inr hwhole =>
    have hqualifier : w.qualifier = table := by rw [hfst, hwhole.2]
    have hcolumn : w.column = source := by rw [hsnd, hwhole.2]
    exact ⟨.inl hqualifier, honce, fun _ => ⟨hqualifier, hcolumn⟩, htitle, hempty, hdotted,
      fun _ => ⟨hqualifier, hcolumn⟩⟩

end Column

namespace Projection

def named (fields : Fields) : List (String × Option String) :=
  fields.filterMap fun f =>
    match f.2.reference? with
    | some source => some (source, some f.1)
    | none => if f.2.truthy then some (f.1, none) else none

/-- The columns that a list of texts or a mapping from texts asks for. -/
inductive Asks : Projection → List (String × Option String) → Prop
  | columns (sources : List String) : Asks (.columns (sources.map .str)) (sources.map (·, none))
  | entries (fields : Fields) : Asks (.entries fields.toEntries) (named fields)

theorem Asks.toColumns {p : Projection} {wanted : List (String × Option String)}
    (h : Asks p wanted) : p.toColumns = wanted.map Column.ofText := by
  cases h with
  | columns sources => simp [Projection.toColumns, Column.ofText]
  | entries fields =>
    simp only [Projection.toColumns, Fields.toEntries, named]
    rw [List.filterMap_map, List.map_filterMap]
    congr 1
    funext f
    simp only [Function.comp, entryColumn]
    cases hreference : f.2.reference? with
    | some source => rfl
    | none =>
      by_cases htruthy : f.2.truthy
      · simp only [if_pos htruthy]
        rfl
      · simp only [if_neg htruthy]
        rfl

theorem clause_of_empty {p : Projection} (hp : p.toColumns = []) (table : String)
    (joins : List Join) (j : Journal) : clause table joins (some p) j = .ok "*" j := by
  unfold clause
  simp only [hp]
  rfl

theorem clause_of_qualified {p : Projection} (hp : p.toColumns ≠ []) (table : String)
    {joins : List Join} (hjoins : joins ≠ []) {texts : List String}
    (h : Column.qualifiedAll table (joins.map Join.name) p.toColumns = .ok texts) (j : Journal) :
    clause table joins (some p) j =
      .ok (", ".intercalate texts) (j.note (.projection (", ".intercalate texts))) := by
  have hcolumns : p.toColumns.isEmpty = false := by simpa using hp
  have hlist : joins.isEmpty = false := by simpa using hjoins
  unfold clause
  simp only [hcolumns, hlist, h]
  rfl

/-- Beside joins the columns that are asked for are written one by one in their order, each placed
once and titled. A title is empty only if it was given so; one that is made up has a dot only where
the table has one and the source is not addressed by a name without a dot. -/
theorem clause_places_each {p : Projection} {wanted : List (String × Option String)}
    (hp : p.Asks wanted) (table : String) {joins : List Join} (hjoins : joins ≠ []) (j : Journal) :
    (wanted = [] → clause table joins (some p) j = .ok "*" j) ∧
    (wanted ≠ [] → ∃ write : String × Option String → Written,
      let text := ", ".intercalate (wanted.map fun a => (write a).text)
      clause table joins (some p) j = .ok text (j.note (.projection text)) ∧
        ∀ a ∈ wanted, (write a).Places table (joins.map Join.name) a.1 a.2) := by
  have hcolumns := hp.toColumns
  refine ⟨?_, ?_⟩
  · intro hwanted
    exact clause_of_empty (by rw [hcolumns, hwanted]; rfl) table joins j
  · intro hwanted
    have hqualified := Column.qualifiedAll_ofText table (joins.map Join.name) wanted
    rw [← hcolumns] at hqualified
    refine ⟨Column.written table (joins.map Join.name), ?_, ?_⟩
    · exact clause_of_qualified (by simpa [hcolumns] using hwanted) table hjoins hqualified j
    · intro a _
      exact Column.written_places table _ a.1 a.2

def users : Join := { table := "u", on := "u.id = o.id" }

/-- With a dot in the table, a title that is made up keeps it, and a source that starts with the
table is qualified a second time. A title that is given as empty stays so. -/
theorem dotted_table_places_badly :
    (∃ write : String × Option String → Written,
      (∃ j', clause "db.t" [users] (some (.columns [.str "id", .str "db.t.id"])) {} =
        .ok ((write ("id", none)).text ++ ", " ++ (write ("db.t.id", none)).text) j') ∧
      '.' ∈ (write ("id", none)).title.toList ∧
      (write ("db.t.id", none)).qualifier = "db.t" ∧ (write ("db.t.id", none)).column = "db.t.id") ∧
    ∃ write : String × Option String → Written,
      (∃ j', clause "t" [users] (some (.entries [(.str "", .str "$amount")])) {} =
        .ok (write ("amount", some "")).text j') ∧ (write ("amount", some "")).title = "" := by
  have hdotted : ∀ source q column, source.toList.head? ≠ some 'u' →
      Addressed "db.t" ["u"] source q column → '.' ∈ q.toList := by
    intro source q column hsource haddressed
    cases haddressed.known with
    | inl hq => rw [hq]; decide
    | inr hq =>
      have hq : q = "u" := by simpa using hq
      refine absurd ?_ hsource
      rw [haddressed.source_eq, hq]
      simp
  refine ⟨?_, ?_⟩
  · obtain ⟨write, hclause, hplaces⟩ := (clause_places_each (.columns ["id", "db.t.id"]) "db.t"
      (List.cons_ne_nil users []) {}).2 (by decide)
    have hid := hplaces ("id", none) (by decide)
    have htable := hplaces ("db.t.id", none) (by decide)
    have hcut := hid.otherwise (hdotted "id" · · (by decide))
    refine ⟨write, ⟨_, hclause⟩, ?_, htable.otherwise (hdotted "db.t.id" · · (by decide))⟩
    rw [hid.title_dotted_iff rfl, hcut.1]
    decide
  · obtain ⟨write, hclause, hplaces⟩ := (clause_places_each (.entries [("", .str "$amount")]) "t"
      (List.cons_ne_nil users []) {}).2 (by decide)
    have hamount := hplaces ("amount", some "") (by decide)
    exact ⟨write, ⟨_, hclause⟩, hamount.title_empty_iff.2 rfl⟩

end Projection

end BoundQuery
