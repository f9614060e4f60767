import BoundQuery.Proofs.Discipline.Basic
import BoundQuery.Proofs.Comment
import BoundQuery.Proofs.Compiled
import BoundQuery.Proofs.RawText
import Mathlib.Data.List.TakeDrop

/-! Clauses without bound values keep to a discipline, as long as the text given for them may be
taken as it is. -/
namespace BoundQuery

theorem Value.join_eq_ok {separator s : String} {vs : List Value} (h : join separator vs = .ok s) :
    ∃ ss : List String, vs = ss.map .str ∧ s = separator.intercalate ss := by
  have htexts : ∀ {vs : List Value} {ss : List String}, texts vs = .ok ss → vs = ss.map .str := by
    intro vs
    induction vs with
    | nil =>
      intro ss h
      obtain rfl := Except.ok.inj h
      rfl
    | cons v vs ih =>
      intro ss h
      cases v with
      | str s =>
        obtain ⟨rest, hrest, h⟩ := except_bind_eq_ok_iff.mp h
        obtain rfl := Except.ok.inj h
        rw [List.map_cons, ← ih hrest]
      | _ => cases h
  obtain ⟨ss, hss, h⟩ := except_bind_eq_ok_iff.mp h
  exact ⟨ss, htexts hss, (Except.ok.inj h).symm⟩

theorem Text.ofNat_neutral {n : Nat} (h : 63 < n) : Neutral (Char.ofNat n) := by
  have hnumber : ∀ c : Char, c.toNat ≤ 63 → c.toNat ≠ 0 → Char.ofNat n ≠ c := by
    intro c hc hzero he
    by_cases hv : n.isValidChar
    · have hn : (Char.ofNat n).toNat = n := by
        rw [Char.ofNat, dif_pos hv]
        rfl
      rw [← he, hn] at hc
      omega
    · have hn : (Char.ofNat n).toNat = 0 := by
        rw [Char.ofNat, dif_neg hv]
        rfl
      exact hzero (he ▸ hn)
  exact ⟨hnumber _ (by decide) (by decide), hnumber _ (by decide) (by decide),
    hnumber _ (by decide) (by decide)⟩

/-- An upper-case form is the character itself, or none of those that a discipline looks at. -/
theorem Text.mem_upperChar {c d : Char} (h : d ∈ upperChar c) : d = c ∨ Neutral d := by
  have hlong : ∀ e ∈ longForms, Fixed (String.ofList (e.2.map Char.ofNat)) := by decide +kernel
  have hruns : ∀ r ∈ caseRuns, (63 : Int) < r.first + r.shift := by decide +kernel
  unfold upperChar at h
  split at h
  · rename_i ns hns
    obtain ⟨before, after, hmem, -⟩ := List.lookup_eq_some_iff.mp hns
    exact .inr (hlong (c.toNat, ns) (by simp [hmem]) d (by simpa using h))
  · split at h
    · rename_i r hr
      have hfirst := hruns r (List.mem_of_find?_eq_some hr)
      have hcovers := List.find?_some hr
      have hle : r.first ≤ c.toNat := by
        simp only [CaseRun.covers, Bool.and_eq_true, decide_eq_true_eq] at hcovers
        exact hcovers.1.1
      obtain rfl := List.mem_singleton.mp h
      exact .inr (ofNat_neutral (by omega))
    · exact .inl (List.mem_singleton.mp h)

theorem Text.wordsFrom_subset {cs word w : List Char} (hw : w ∈ wordsFrom cs word) :
    w ⊆ word ++ cs := by
  fun_induction wordsFrom cs word with
  | case1 => simp at hw
  | case2 word _ =>
    obtain rfl := List.mem_singleton.mp hw
    intro c hc
    simpa using hc
  | case3 c cs _ ih => exact fun d hd => List.mem_cons_of_mem _ (ih hw hd)
  | case4 c cs word _ _ ih =>
    rcases List.mem_cons.mp hw with rfl | hw
    · intro d hd
      exact List.mem_append_left _ (List.mem_reverse.mp hd)
    · intro d hd
      exact List.mem_append_right _ (List.mem_cons_of_mem _ (ih hw hd))
  | case5 c cs word _ ih =>
    intro d hd
    have hmem := ih hw hd
    simp only [List.cons_append, List.mem_cons, List.mem_append] at hmem ⊢
    grind

theorem Text.repr_fixed (n : Nat) : Fixed n.repr := by
  intro c hc
  rw [Nat.toList_repr] at hc
  have hdigit := Nat.isDigit_of_mem_toDigits (by decide) (by decide) hc
  have hne : ∀ d : Char, d.isDigit = false → c ≠ d := by
    rintro d hd rfl
    exact absurd (hdigit.symm.trans hd) (by decide)
  exact ⟨hne _ (by decide), hne _ (by decide), hne _ (by decide)⟩

variable {D : Discipline}

namespace Discipline

theorem given_join {separator s : String} {vs : List Value} (h : Value.join separator vs = .ok s)
    (hs : D.given separator) (hvs : ∀ v ∈ vs, D.given v.text) : D.given s := by
  obtain ⟨ss, rfl, rfl⟩ := Value.join_eq_ok h
  refine D.given_intercalate hs fun t ht => ?_
  exact hvs (.str t) (List.mem_map_of_mem ht)

/-- A type of a join is still one that was given when it is made normal. -/
theorem given_normalType {s : String} (h : D.given s) : D.given (Join.normalType s) := by
  have hupper : D.given (Text.upper s) := by
    refine D.given_ofList h fun d hd => ?_
    obtain ⟨c, hc, hd⟩ := List.mem_flatMap.mp hd
    rcases Text.mem_upperChar hd with rfl | hneutral
    · exact .inl hc
    · exact .inr hneutral
  have hwords : D.given (" ".intercalate (Text.words (Text.upper s))) := by
    refine D.given_intercalate (D.given_fixed (by decide)) fun t ht => ?_
    obtain ⟨w, hw, rfl⟩ := List.mem_map.mp ht
    refine D.given_ofList hupper fun c hc => .inl ?_
    simpa using Text.wordsFrom_subset hw hc
  simp only [Join.normalType]
  split
  · exact hwords
  · exact D.given_append hwords (D.given_fixed (by decide))

end Discipline

theorem Plan.paging_given (limit offset : Option Nat) :
    ∀ s ∈ Plan.paging limit offset, D.given s := by
  intro s hs
  have hnumber : ∀ n : Nat, D.given n.repr := fun n => D.given_fixed (Text.repr_fixed n)
  have hlimit : D.given "LIMIT " := D.given_fixed (by decide)
  have hoffset : D.given " OFFSET " := D.given_fixed (by decide)
  have htext : D.given (Dialect.paging limit offset) := by
    unfold Dialect.paging Dialect.pagingText
    cases limit <;> cases offset <;> simp [D.given_append_iff, D.given_empty, *]
  simp only [Plan.paging] at hs
  split at hs
  · simp at hs
  · obtain rfl := List.mem_singleton.mp hs
    exact htext

theorem Plan.clause_leads (keyword : String) (hk : D.given keyword) {body : String}
    (hb : D.Leads 0 0 body) : ∀ s ∈ Plan.clause keyword body, D.Leads 0 0 s := by
  intro s hs
  unfold Plan.clause at hs
  split at hs
  · simp at hs
  · obtain rfl := List.mem_singleton.mp hs
    exact (Discipline.Leads.given (D.given_append hk (D.given_fixed (by decide)))).append hb

theorem Order.clause_given {order : Order} (h : order.RawText D.given) : D.given order.clause := by
  cases order with
  | text s => exact h
  | fields es =>
    refine D.given_intercalate (D.given_fixed (by decide)) fun t ht => ?_
    obtain ⟨e, he, rfl⟩ := List.mem_map.mp ht
    have hd : D.given (Order.direction e.2) := by
      unfold Order.direction
      split <;> exact D.given_fixed (by decide)
    exact D.given_append (D.given_append (h e he) (D.given_fixed (by decide))) hd

theorem Join.clause_given {j : Join} (h : j.RawText D.given) : D.given j.clause := by
  have halias : D.given (Join.aliasClause j.shortName) := by
    cases hj : j.shortName with
    | none => exact D.given_empty
    | some short =>
      simp only [Join.aliasClause]
      split
      · exact D.given_empty
      · exact D.given_append (D.given_fixed (by decide)) (h.shortName short hj)
  have hspace : D.given " " := D.given_fixed (by decide)
  have hon : D.given " ON " := D.given_fixed (by decide)
  simp only [Join.clause, D.given_append_iff]
  exact ⟨⟨⟨⟨⟨h.type, hspace⟩, h.table⟩, halias⟩, hon⟩, h.on⟩

theorem Lookup.clause_given {l : Lookup} (h : l.RawText D.given) {table : String}
    (ht : D.given table) : D.given (l.clause table) := by
  have hdot : D.given "." := D.given_fixed (by decide)
  have hjoin : D.given "LEFT JOIN " := D.given_fixed (by decide)
  have has : D.given " AS " := D.given_fixed (by decide)
  have hon : D.given " ON " := D.given_fixed (by decide)
  have hequals : D.given " = " := D.given_fixed (by decide)
  have hsource := D.given_append (D.given_append hjoin h.source) has
  have hname := D.given_append (D.given_append hsource h.name) hon
  have hlocal := D.given_append (D.given_append (D.given_append hname ht) hdot) h.localField
  have hforeign := D.given_append (D.given_append hlocal hequals) h.name
  exact D.given_append (D.given_append hforeign hdot) h.foreignField

theorem Column.plain_given {c : Column} (hs : D.given c.source.text) (ht : D.given c.title.text) :
    D.given c.plain.text := by
  unfold Column.plain
  split
  · exact D.given_append (D.given_append hs (D.given_fixed (by decide))) ht
  · exact hs

theorem Text.splitAtDot_given {s : String} (h : D.given s) :
    D.given (splitAtDot s).1 ∧ D.given (splitAtDot s).2 := by
  unfold splitAtDot
  rw [List.span_eq_takeWhile_dropWhile]
  constructor
  · exact D.given_ofList h fun c hc => .inl (List.takeWhile_subset _ hc)
  · exact D.given_ofList h fun c hc => .inl (List.dropWhile_subset _ (List.mem_of_mem_drop hc))

theorem Text.underscored_given {s : String} (h : D.given s) : D.given (underscored s) := by
  refine D.given_ofList h fun d hd => ?_
  obtain ⟨c, hc, rfl⟩ := List.mem_map.mp hd
  split
  · exact .inr (by decide)
  · exact .inl hc

theorem Column.qualifier_given {source table : String} (names : List String)
    (ht : D.given table) (hs : D.given source) :
    D.given (qualifier source table names).1 ∧ D.given (qualifier source table names).2 := by
  simp only [qualifier]
  split
  · exact Text.splitAtDot_given hs
  · exact ⟨ht, hs⟩

theorem Column.qualified_given {table : String} {names : List String} {c : Column} {s : String}
    (hc : c.qualified table names = .ok s) (ht : D.given table) (hs : D.given c.source.text)
    (htitle : D.given c.title.text) : D.given s := by
  unfold Column.qualified at hc
  split at hc
  · rename_i source hsource
    have hsrc : D.given source := by simpa [hsource] using hs
    have hq := qualifier_given names ht hsrc
    generalize qualifier source table names = parts at hc hq
    obtain ⟨q, column⟩ := parts
    obtain rfl := Except.ok.inj hc
    have hname : D.given (titleFor q column c.title) := by
      unfold titleFor
      split
      · exact D.given_append (D.given_append hq.1 (D.given_fixed (by decide)))
          (Text.underscored_given hq.2)
      · exact htitle
    have hdot : D.given "." := D.given_fixed (by decide)
    have has : D.given " AS " := D.given_fixed (by decide)
    simp only [D.given_append_iff]
    exact ⟨⟨⟨⟨hq.1, hdot⟩, hq.2⟩, has⟩, hname⟩
  · cases hc

theorem Projection.toColumns_given {projection : Projection} (h : projection.RawText D.given) :
    ∀ c ∈ projection.toColumns, D.given c.source.text ∧ D.given c.title.text := by
  have hnull : D.given Value.null.text := D.given_fixed (by decide)
  intro c hc
  cases projection with
  | columns items =>
    obtain ⟨v, hv, rfl⟩ := List.mem_map.mp hc
    exact ⟨h v hv, hnull⟩
  | entries es =>
    obtain ⟨e, he, hcolumn⟩ := List.mem_filterMap.mp hc
    unfold entryColumn at hcolumn
    split at hcolumn
    · rename_i field hfield
      obtain rfl := Option.some.inj hcolumn
      exact ⟨(h e he).2 field hfield, (h e he).1⟩
    · split at hcolumn
      · obtain rfl := Option.some.inj hcolumn
        exact ⟨(h e he).1, hnull⟩
      · cases hcolumn

theorem Column.qualifiedAll_given {table : String} {names : List String} {columns : List Column}
    {texts : List String} (h : Column.qualifiedAll table names columns = .ok texts)
    (ht : D.given table)
    (hcolumns : ∀ c ∈ columns, D.given c.source.text ∧ D.given c.title.text) :
    ∀ s ∈ texts, D.given s := by
  induction columns generalizing texts with
  | nil =>
    obtain rfl := Except.ok.inj h
    simp
  | cons c columns ih =>
    obtain ⟨first, hfirst, h⟩ := except_bind_eq_ok_iff.mp h
    obtain ⟨rest, hrest, h⟩ := except_bind_eq_ok_iff.mp h
    obtain rfl := Except.ok.inj h
    have hc := hcolumns c List.mem_cons_self
    have htail := ih hrest fun c hc => hcolumns c (List.mem_cons_of_mem _ hc)
    intro s hs
    rcases List.mem_cons.mp hs with rfl | hs
    · exact Column.qualified_given hfirst ht hc.1 hc.2
    · exact htail s hs

theorem Projection.clause_given {table : String} {joins : List Join}
    {projection : Option Projection} {s : String} {j j' : Journal}
    (h : Projection.clause table joins projection j = .ok s j') (ht : D.given table)
    (hp : ∀ columns, projection = some columns → columns.RawText D.given) : D.given s := by
  have hstar : D.given "*" := D.given_fixed (by decide)
  have hcomma : D.given ", " := D.given_fixed (by decide)
  cases projection with
  | none =>
    obtain ⟨rfl, -⟩ := pure_eq_ok_iff.mp h
    exact hstar
  | some columns =>
    have hcolumns := toColumns_given (hp columns rfl)
    unfold Projection.clause at h
    dsimp only at h
    split at h
    · obtain ⟨rfl, -⟩ := pure_eq_ok_iff.mp h
      exact hstar
    · split at h
      · obtain ⟨text, k, hlift, h⟩ := bind_eq_ok_iff.mp h
        obtain ⟨hjoin, -⟩ := liftExcept_eq_ok_iff.mp hlift
        obtain ⟨rfl, -⟩ := noted_eq_ok_iff.mp h
        refine Discipline.given_join hjoin hcomma fun v hv => ?_
        obtain ⟨c, hc, rfl⟩ := List.mem_map.mp hv
        exact Column.plain_given (hcolumns c hc).1 (hcolumns c hc).2
      · obtain ⟨text, k, hlift, h⟩ := bind_eq_ok_iff.mp h
        obtain ⟨rfl, -⟩ := noted_eq_ok_iff.mp h
        rw [map_eq_pure_bind] at hlift
        obtain ⟨texts, l, hlift, hreturn⟩ := bind_eq_ok_iff.mp hlift
        obtain ⟨htexts, -⟩ := liftExcept_eq_ok_iff.mp hlift
        obtain ⟨rfl, -⟩ := pure_eq_ok_iff.mp hreturn
        exact D.given_intercalate hcomma (Column.qualifiedAll_given htexts ht hcolumns)

theorem Value.reference_given {v : Value} {name : String} (hr : v.reference? = some name)
    (h : D.given v.text) : D.given name := by
  cases v with
  | str s =>
    simp only [reference?, Text.afterMark?] at hr
    split at hr
    · rename_i cs hcs
      obtain rfl := Option.some.inj hr
      refine D.given_ofList h fun c hc => .inl ?_
      rw [text_str, hcs]
      exact List.mem_cons_of_mem _ hc
    · cases hr
  | _ => cases hr

theorem Value.fieldName_given {v : Value} (h : D.given v.text) : D.given v.fieldName := by
  unfold fieldName
  cases hr : v.reference? with
  | none => exact h
  | some name => exact reference_given hr h

theorem Text.literal_given {s : String} (h : D.given s) : D.given (literal s) := by
  have hdoubled : ∀ cs : List Char, ∀ c ∈ doubled '\x27' cs, c ∈ cs := by
    intro cs
    induction cs with
    | nil => simp [doubled]
    | cons d cs ih =>
      intro c hc
      unfold doubled at hc
      split at hc <;> grind
  refine D.given_ofList h fun c hc => ?_
  have hquote : Neutral '\x27' := by decide
  grind

namespace GroupClause

theorem operand_given {v : Value} (h : D.given v.text) : D.given (operand v) := by
  have hother : D.given ((v.reference?).getD (Dialect.literal v)) := by
    cases hr : v.reference? with
    | none => exact Text.literal_given h
    | some name => exact Value.reference_given hr h
  cases v with
  | null => exact D.given_fixed (by decide)
  | bool b => cases b <;> exact D.given_fixed (by decide)
  | int n => simpa only [Value.text, Value.shown, operand] using h
  | real x => simpa only [Value.text, Value.shown, operand] using h
  | _ => exact hother

theorem accumulator_leads {name s : String} {v : Value} (hs : accumulator name v = .ok s)
    (hname : D.given name) (hv : AccumulatorText D.given v) : D.Leads 0 0 s := by
  unfold accumulator at hs
  split at hs
  · rename_i operator w
    split at hs
    · rename_i a _
      obtain rfl := Except.ok.inj hs
      have ha : D.given a.function := by cases a <;> exact D.given_fixed (by decide)
      have hw := operand_given (hv (operator, w) List.mem_cons_self)
      have hopening : D.Leads 0 1 "(" := .fixed (by decide) (by decide)
      have hclosing : D.Leads 1 0 ") AS " := .fixed (by decide) (by decide)
      exact ((((Discipline.Leads.given ha).append hopening).append (.given hw)).append
        hclosing).append (.given hname)
    · cases hs
  · cases hs

theorem accumulatorColumns_leads {spec : Fields} {texts : List String}
    (h : accumulatorColumns spec = .ok texts) (hnames : ∀ f ∈ spec, D.given f.1)
    (hoperands : ∀ f ∈ spec, AccumulatorText D.given f.2) : ∀ s ∈ texts, D.Leads 0 0 s := by
  induction spec generalizing texts with
  | nil =>
    obtain rfl := Except.ok.inj h
    simp
  | cons f spec ih =>
    obtain ⟨first, hfirst, h⟩ := except_bind_eq_ok_iff.mp h
    obtain ⟨rest, hrest, h⟩ := except_bind_eq_ok_iff.mp h
    obtain rfl := Except.ok.inj h
    have htail := ih hrest (fun f hf => hnames f (List.mem_cons_of_mem _ hf))
      fun f hf => hoperands f (List.mem_cons_of_mem _ hf)
    intro s hs
    rcases List.mem_cons.mp hs with rfl | hs
    · exact accumulator_leads hfirst (hnames f List.mem_cons_self)
        (hoperands f List.mem_cons_self)
    · exact htail s hs

theorem identityColumns_given {identity : Value} (h : IdentityText D.given identity) :
    (∀ s ∈ (identityColumns identity).1, D.given s) ∧
      ∀ s ∈ (identityColumns identity).2, D.given s := by
  unfold identityColumns
  split
  · rename_i es
    have hnames : ∀ s ∈ es.map fun e => e.2.fieldName, D.given s := by
      intro s hs
      obtain ⟨e, he, rfl⟩ := List.mem_map.mp hs
      exact Value.fieldName_given (h e he)
    exact ⟨hnames, hnames⟩
  · simp
  · simp
  · rename_i hmap _ _
    have htext : D.given identity.text := by
      cases identity with
      | map es => exact absurd rfl (hmap es)
      | _ => exact h
    have hid : D.given " AS _id" := D.given_fixed (by decide)
    split
    · rename_i field hr
      have hf := Value.reference_given hr htext
      exact ⟨List.forall_mem_singleton.mpr (D.given_append hf hid), List.forall_mem_singleton.mpr hf⟩
    · have hl : D.given (Dialect.literal identity) := Text.literal_given htext
      exact ⟨List.forall_mem_singleton.mpr (D.given_append hl hid), by simp⟩

theorem ofSpec_leads {spec : Fields} {clause : GroupClause} {j j' : Journal}
    (hc : ofSpec spec j = .ok clause j') (h : RawText D.given spec) :
    D.Leads 0 0 clause.select ∧ D.given clause.groupBy := by
  have hcomma : D.given ", " := D.given_fixed (by decide)
  have hidentity := identityColumns_given h.identity
  unfold ofSpec at hc
  generalize identityColumns (Stage.identity spec) = parts at hc hidentity
  obtain ⟨columns, groupBy⟩ := parts
  obtain ⟨outputs, k, hlift, hc⟩ := bind_eq_ok_iff.mp hc
  obtain ⟨houtputs, -⟩ := liftExcept_eq_ok_iff.mp hlift
  split at hc
  · exact absurd hc throw_ne_ok
  · obtain ⟨rfl, -⟩ := noted_eq_ok_iff.mp hc
    have htexts := accumulatorColumns_leads houtputs h.names h.operands
    refine ⟨.intercalate (.given hcomma) fun s hs => ?_, D.given_intercalate hcomma hidentity.2⟩
    rcases List.mem_append.mp hs with hs | hs
    · exact .given (hidentity.1 s hs)
    · exact htexts s hs

end GroupClause

theorem Plan.unwindComment_leads {path : String} (h : D.given path) :
    D.Leads 0 0 (unwindComment path) := by
  have hpath : D.given (String.ofList (withoutCloser path.toList)) :=
    D.given_ofList h fun c hc => .inl (withoutCloser_subset _ hc)
  have hopening : D.Leads 0 1 "/* UNWIND(" := .fixed (by decide) (by decide)
  exact (hopening.append (.given hpath)).append (.fixed (by decide) (by decide))

theorem Dialect.upsert_leads {columns : List Value} (h : ∀ c ∈ columns, D.given c.text) :
    D.Leads 0 0 (upsert columns) := by
  have hopening : D.Leads 0 1 " = VALUES(" := .fixed (by decide) (by decide)
  have hclosing : D.Leads 1 0 ")" := .fixed (by decide) (by decide)
  have hclause : D.given "ON DUPLICATE KEY UPDATE " := D.given_fixed (by decide)
  refine (Discipline.Leads.given hclause).append
    (.intercalate (.given (D.given_fixed (by decide))) fun t ht => ?_)
  obtain ⟨c, hc, rfl⟩ := List.mem_map.mp ht
  exact (((Discipline.Leads.given (h c hc)).append hopening).append (.given (h c hc))).append
    hclosing

end BoundQuery
