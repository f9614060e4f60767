import BoundQuery.Proofs.Discipline.Basic
import BoundQuery.Proofs.Names
import BoundQuery.Proofs.Spelled

/-! Conditions keep to a discipline, whichever it is, if the names of their fields are given, and
what handlers and sub-queries write keeps to it. -/
namespace BoundQuery

structure Vocabulary.Keeps (D : Discipline) (V : Vocabulary) : Prop where
  handler : ∀ name write field operand s, V.handler name = some write → D.given field.text →
    write field operand s → ∀ d, D.holds d d s.sql s.params
  subquery : ∀ ref s, V.subquery ref s → ∀ d, D.holds d d s.sql s.params

namespace Filter

open Fragments Discipline

variable {D : Discipline} {V : Vocabulary} {field : Value}

theorem comparison_keeps (hf : D.given field.text) {symbol : String} (hs : D.given symbol)
    (v : Value) : (comparison field symbol v).Keeps D := by
  have hspace : D.given " " := D.given_fixed (by decide)
  have htext := D.given_append (D.given_append (D.given_append hf hspace) hs) hspace
  exact (Keeps.text htext).append (.value v)

theorem containment_keeps (hf : D.given field.text) (json : String) :
    (containment field json).Keeps D := by
  have hopening : D.Leads 0 1 "JSON_CONTAINS(" := .fixed (by decide) (by decide)
  have hcomma : D.Leads 1 1 ", " := .fixed (by decide) (by decide)
  exact (Keeps.value _).around ((hopening.append (.given hf)).append hcomma)
    (.fixed (by decide) (by decide))

theorem patternMatch_keeps (hf : D.given field.text) (v : Value) :
    (patternMatch field v).Keeps D :=
  (Keeps.text (D.given_append hf (D.given_fixed (by decide)))).append (.value _)

theorem keyword_given (m : Membership) : D.given m.keyword := by
  cases m <;> exact D.given_fixed (by decide)

theorem membersOf_keeps (hf : D.given field.text) (m : Membership) {items : List Fragments}
    (h : ∀ fs ∈ items, fs.Keeps D) : (membersOf field m items).Keeps D := by
  have hname : D.given (field.text ++ " " ++ m.keyword) :=
    D.given_append (D.given_append hf (D.given_fixed (by decide))) (keyword_given m)
  have hopening : D.Leads 0 1 " (" := .fixed (by decide) (by decide)
  exact (Keeps.joined h (D.given_fixed (by decide))).around ((Leads.given hname).append hopening)
    (.fixed (by decide) (by decide))

theorem rowsOf_keeps (hf : D.given field.text) {keyword : String} (hk : D.given keyword)
    {s : Statement} (hs : ∀ d, D.holds d d s.sql s.params) :
    (rowsOf field keyword s).Keeps D := by
  have hspace : D.given " " := D.given_fixed (by decide)
  have htext := D.given_append (D.given_append (D.given_append hf hspace) hk) hspace
  exact (Keeps.text htext).append (.whole hs)

theorem SpellsItems.keeps (hV : V.Keeps D) {vs : List Value} {rows : List Fragments}
    (h : SpellsItems V vs rows) : ∀ fs ∈ rows, fs.Keeps D := by
  induction h with
  | nil => simp
  | subquery embedded _ ih =>
    exact List.forall_mem_cons.mpr ⟨.whole (hV.subquery _ _ embedded), ih⟩
  | value _ _ ih => exact List.forall_mem_cons.mpr ⟨.value _, ih⟩

theorem enclosed_keeps {fs : Fragments} (h : fs.Keeps D) : (around "(" fs ")").Keeps D :=
  h.around (a := 1) (.fixed (by decide) (by decide)) (.fixed (by decide) (by decide))

theorem negated_keeps {fs : Fragments} (h : fs.Keeps D) : (around "NOT (" fs ")").Keeps D :=
  h.around (a := 1) (.fixed (by decide) (by decide)) (.fixed (by decide) (by decide))

theorem SpellsMembers.keeps (hV : V.Keeps D) (hf : D.given field.text) {m : Membership}
    {vs : List Value} {fs : Fragments} (h : SpellsMembers V field m vs fs) : fs.Keeps D := by
  cases h with
  | empty => exact .text (D.given_fixed (by cases m <;> decide))
  | mixed _ items => exact membersOf_keeps hf m (items.keeps hV)
  | contained =>
    refine enclosed_keeps (Keeps.joined (fun fs hfs => ?_) (D.given_fixed (by decide)))
    obtain ⟨t, -, rfl⟩ := List.mem_map.mp hfs
    exact containment_keeps hf t
  | listed => exact membersOf_keeps hf m (.values vs)

theorem SpellsSimple.keeps (hV : V.Keeps D) (hf : D.given field.text) {operator : Operator}
    {v : Value} {fs : Fragments} (h : SpellsSimple V field operator v fs) : fs.Keeps D := by
  cases h with
  | compare c => exact comparison_keeps hf (D.given_fixed (by cases c <;> decide)) v
  | member _ members => exact members.keeps hV hf
  | present =>
    refine .text ?_
    split <;> exact D.given_append hf (D.given_fixed (by decide))
  | size =>
    have hopening : D.Leads 0 1 "JSON_LENGTH(" := .fixed (by decide) (by decide)
    have hclosing : D.Leads 1 0 ") = " := .fixed (by decide) (by decide)
    exact (Keeps.leads ((hopening.append (.given hf)).append hclosing)).append (.value v)
  | element => exact containment_keeps hf _
  | regex => exact patternMatch_keeps hf v
  | like => exact (Keeps.text (D.given_append hf (D.given_fixed (by decide)))).append (.value v)
  | negatedText => exact negated_keeps (patternMatch_keeps hf _)
  | negatedPattern => exact negated_keeps (patternMatch_keeps hf _)

theorem fieldConjunction_keeps {rows : List Fragments} (h : ∀ fs ∈ rows, fs.Keeps D) :
    (fieldConjunction rows).Keeps D := by
  match rows with
  | [] => exact .empty
  | [fs] => exact h fs List.mem_cons_self
  | fs :: gs :: rows => exact enclosed_keeps (Keeps.joined h (D.given_fixed (by decide)))

theorem conjunction_keeps {rows : List Fragments} (h : ∀ fs ∈ rows, fs.Keeps D) :
    (conjunction rows).Keeps D := by
  cases rows with
  | nil => exact .text (D.given_fixed (by decide))
  | cons fs rows => exact Keeps.joined h (D.given_fixed (by decide))

theorem spelled_keeps (c : Connective) {rows : List Fragments} (h : ∀ fs ∈ rows, fs.Keeps D) :
    (c.spelled rows).Keeps D := by
  have hparts : ∀ fs ∈ rows.map fun fs => around "(" fs ")", fs.Keeps D := by
    intro fs hfs
    obtain ⟨gs, hgs, rfl⟩ := List.mem_map.mp hfs
    exact enclosed_keeps (h gs hgs)
  have hor : (joined " OR " (rows.map fun fs => around "(" fs ")")).Keeps D :=
    .joined hparts (D.given_fixed (by decide))
  cases rows with
  | nil => cases c <;> exact .text (D.given_fixed (by decide))
  | cons fs rows =>
    cases c with
    | all => exact .joined hparts (D.given_fixed (by decide))
    | any => exact enclosed_keeps hor
    | none => exact negated_keeps hor

mutual

theorem SpellsOperators.keeps (hV : V.Keeps D) (hf : D.given field.text) {es : Entries}
    {rows : List Fragments} : SpellsOperators V field es rows → ∀ fs ∈ rows, fs.Keeps D
  | .nil => by simp
  | .plain _ rest => by
    have hrest := rest.keeps hV hf
    exact List.forall_mem_cons.mpr ⟨comparison_keeps hf (D.given_fixed (by decide)) _, hrest⟩
  | .operator _ first rest => by
    have hfirst := first.keeps hV hf
    have hrest := rest.keeps hV hf
    exact List.forall_mem_cons.mpr ⟨hfirst, hrest⟩

theorem SpellsOperator.keeps (hV : V.Keeps D) (hf : D.given field.text) {name : String}
    {operand : Value} {fs : Fragments} : SpellsOperator V field name operand fs → fs.Keeps D
  | .plugged registered written => .whole (hV.handler _ _ _ _ _ registered hf written)
  | .subquery _ embedded =>
    rowsOf_keeps hf (D.given_fixed (by split <;> decide)) (hV.subquery _ _ embedded)
  | .negation _ _ operators => by
    have hrows := operators.keeps hV hf
    exact negated_keeps (fieldConjunction_keeps hrows)
  | .simple _ _ _ simple => simple.keeps hV hf

end

mutual

theorem Spells.keeps (hV : V.Keeps D) {tree : Value} {fs : Fragments} :
    Spells V tree fs → Names D.given tree → fs.Keeps D
  | .null, _ => .text (D.given_fixed (by decide))
  | .map entries, hn => by
    have hrows := entries.keeps hV hn
    exact conjunction_keeps hrows

theorem SpellsEntries.keeps (hV : V.Keeps D) {es : Entries} {rows : List Fragments} :
    SpellsEntries V es rows → EntriesNames D.given es → ∀ fs ∈ rows, fs.Keeps D
  | .nil, _ => by simp
  | .silent _ _ rest, hn => rest.keeps hV hn.2
  | .cons first _ rest, hn => by
    have hfirst := first.keeps hV hn.1
    have hrest := rest.keeps hV hn.2
    exact List.forall_mem_cons.mpr ⟨hfirst, hrest⟩

theorem SpellsEntry.keeps (hV : V.Keeps D) {key value : Value} {fs : Fragments} :
    SpellsEntry V key value fs → EntryNames D.given key value → fs.Keeps D
  | .group marked _ sequence filters, hn => by
    have hrows := filters.keeps hV (hn.children marked sequence)
    exact spelled_keeps _ hrows
  | .subquery unmarked embedded, hn =>
    rowsOf_keeps (hn.text unmarked) (D.given_fixed (by decide)) (hV.subquery _ _ embedded)
  | .operators unmarked operators, hn =>
    fieldConjunction_keeps (operators.keeps hV (hn.text unmarked))
  | .literal unmarked _ _, hn =>
    comparison_keeps (hn.text unmarked) (D.given_fixed (by decide)) _

theorem SpellsChildren.keeps (hV : V.Keeps D) {children : List Value} {rows : List Fragments} :
    SpellsChildren V children rows → ChildrenNames D.given children → ∀ fs ∈ rows, fs.Keeps D
  | .nil, _ => by simp
  | .vacuous _ _ rest, hn => rest.keeps hV hn.2
  | .cons first _ rest, hn => by
    have hfirst := first.keeps hV hn.1
    have hrest := rest.keeps hV hn.2
    exact List.forall_mem_cons.mpr ⟨hfirst, hrest⟩

end

end Filter

end BoundQuery
