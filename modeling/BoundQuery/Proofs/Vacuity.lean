import BoundQuery.Proofs.Accepted

/-! Filters that restrict nothing. Which they are is told from the filter alone; they are those
that are compiled to the condition that always holds. All their conditions are idle, and no two of
them are written side by side. -/
namespace BoundQuery

/-- What is left of a filter, or of a part of it, in a condition. -/
inductive Standing where
  | trivial
  | restricting
deriving DecidableEq

namespace Standing

/-- Where one of several conditions at most is written, it stands for all. -/
def conjunction : List Standing → Standing
  | [] => trivial
  | [standing] => standing
  | _ => restricting

theorem conjunction_eq_trivial_iff {all : List Standing} :
    conjunction all = trivial ↔ (∀ standing ∈ all, standing = trivial) ∧ all.length ≤ 1 := by
  match all with
  | [] => simp [conjunction]
  | [standing] => simp [conjunction]
  | _ :: _ :: _ => simp [conjunction]

def Of : Standing → Fragments → Prop
  | trivial, fs => fs.sql = Dialect.alwaysTrue
  | restricting, fs => ¬Text.Bare fs.sql

theorem Of.ne_empty {standing : Standing} {fs : Fragments} (h : standing.Of fs) :
    fs.sql ≠ "" := by
  intro hs
  cases standing with
  | trivial => exact absurd (hs.symm.trans h) (by decide)
  | restricting => exact h (hs ▸ Text.bare_empty)

theorem Of.trivial_iff {standing : Standing} {fs : Fragments} (h : standing.Of fs) :
    standing = .trivial ↔ fs.sql = Dialect.alwaysTrue := by
  cases standing with
  | trivial => exact iff_of_true rfl h
  | restricting =>
    exact iff_of_false nofun fun hs => h (hs ▸ Text.bare_alwaysTrue)

end Standing

/-- No value is among none; every value is outside of none and contains all of none. -/
def Membership.standingOfEmpty : Membership → Standing
  | among => .restricting
  | outside => .trivial
  | containsAll => .trivial

/-- All of no filters hold, and none of them; but not any. -/
def Connective.standing : Connective → Standing → Standing
  | any, _ => .restricting
  | all, children => children
  | none, children => children

namespace Filter

open Compile Fragments

def operatorStanding (key operand : Value) : Standing :=
  match key.operator?.bind Operator.ofName?, operand.sequence? with
  | some (.member m), some [] => m.standingOfEmpty
  | _, _ => .restricting

/-- The standing of a field with its operators; without any, it is not written. -/
def fieldStanding? : Entries → Option Standing
  | [] => none
  | [(key, operand)] => some (operatorStanding key operand)
  | _ => some .restricting

mutual

def standing : Value → Standing
  | .null => .trivial
  | .map es => .conjunction (standings es)
  | _ => .restricting

def standings : List (Value × Value) → List Standing
  | [] => []
  | (key, value) :: es => (entryStanding? key value).toList ++ standings es

def entryStanding? (key : Value) (value : Value) : Option Standing :=
  match key.operator? with
  | some name =>
    match Connective.ofName? name, value with
    | some c, .list children => some (c.standing (groupStanding children))
    | some c, .tuple children => some (c.standing (groupStanding children))
    | _, _ => some .restricting
  | none =>
    match value with
    | .map es => fieldStanding? es
    | _ => some .restricting

def groupStanding : List Value → Standing
  | [] => .trivial
  | .map es :: children =>
    match standing (.map es) with
    | .trivial => groupStanding children
    | .restricting => .restricting
  | _ :: _ => .restricting

end

/-- The filter restricts nothing. -/
def Vacuous (tree : Value) : Prop := standing tree = .trivial

instance (tree : Value) : Decidable (Vacuous tree) :=
  inferInstanceAs (Decidable (standing tree = .trivial))

example : Vacuous (.map [(.str "$and", .list [.map [], .map [(.str "a", .map [])]])]) := by
  decide

def fieldIdle (es : Entries) : Bool := es.all fun e => operatorStanding e.1 e.2 = .trivial

mutual

/-- No condition of the filter rules out anything, however many there are. -/
def idle : Value → Bool
  | .null => true
  | .map es => entriesIdle es
  | _ => false

def entriesIdle : List (Value × Value) → Bool
  | [] => true
  | (key, value) :: es => entryIdle key value && entriesIdle es

def entryIdle (key : Value) (value : Value) : Bool :=
  match key.operator? with
  | some name =>
    match Connective.ofName? name, value with
    | some c, .list children => c ≠ .any && childrenIdle children
    | some c, .tuple children => c ≠ .any && childrenIdle children
    | _, _ => false
  | none =>
    match value with
    | .map es => fieldIdle es
    | _ => false

def childrenIdle : List Value → Bool
  | [] => true
  | .map es :: children => idle (.map es) && childrenIdle children
  | _ :: _ => false

end

mutual

/-- Somewhere in the filter two conditions are written side by side. -/
def crowded : Value → Bool
  | .map es => 1 < (standings es).length || entriesCrowded es
  | _ => false

def entriesCrowded : List (Value × Value) → Bool
  | [] => false
  | (key, value) :: es => entryCrowded key value || entriesCrowded es

def entryCrowded (key : Value) (value : Value) : Bool :=
  match key.operator? with
  | some _ =>
    match value with
    | .list children => childrenCrowded children
    | .tuple children => childrenCrowded children
    | _ => false
  | none =>
    match value with
    | .map es => 1 < es.length
    | _ => false

def childrenCrowded : List Value → Bool
  | [] => false
  | child :: children => crowded child || childrenCrowded children

end

theorem forall_toList_eq_trivial_iff {standing? : Option Standing} :
    (∀ standing ∈ standing?.toList, standing = .trivial) ↔ standing? ≠ some .restricting := by
  cases standing? with
  | none => simp
  | some standing => cases standing <;> simp

theorem fieldStanding?_ne_restricting_iff {es : Entries} :
    fieldStanding? es ≠ some .restricting ↔ fieldIdle es ∧ es.length ≤ 1 := by
  match es with
  | [] => simp [fieldStanding?, fieldIdle]
  | [(key, operand)] =>
    cases hs : operatorStanding key operand <;> simp [fieldStanding?, fieldIdle, hs]
  | _ :: _ :: _ => simp [fieldStanding?]

theorem entryStanding?_group {key value : Value} {name : String} {c : Connective}
    {children : List Value} (marked : key.operator? = some name)
    (known : Connective.ofName? name = some c) (sequence : value.sequence? = some children) :
    entryStanding? key value = some (c.standing (groupStanding children)) := by
  rw [entryStanding?.eq_def]
  cases value with
  | list items => simp_all [Value.sequence?]
  | tuple items => simp_all [Value.sequence?]
  | _ => cases sequence

/-- What is known of the filters of a group says what is of the group. -/
theorem group_ne_restricting_iff {key value : Value} {children : List Value}
    (hsequence : value.sequence? = some children)
    (h : groupStanding children = .trivial ↔ childrenIdle children ∧ ¬ childrenCrowded children) :
    entryStanding? key value ≠ some .restricting ↔ entryIdle key value ∧ ¬ entryCrowded key value := by
  cases hkey : key.operator? with
  | none => cases value <;> simp_all [entryStanding?.eq_def, entryIdle.eq_def, Value.sequence?]
  | some name =>
    cases hname : Connective.ofName? name with
    | none => cases value <;> simp_all [entryStanding?.eq_def, entryIdle.eq_def, Value.sequence?]
    | some c =>
      have hidle : entryIdle key value = (c ≠ .any && childrenIdle children) := by
        rw [entryIdle.eq_def]
        cases value <;> simp_all [Value.sequence?]
      have hcrowded : entryCrowded key value = childrenCrowded children := by
        rw [entryCrowded.eq_def]
        cases value <;> simp_all [Value.sequence?]
      have hstanding : c.standing (groupStanding children) = .trivial ↔
          c ≠ .any ∧ groupStanding children = .trivial := by
        cases c <;> simp [Connective.standing]
      rw [entryStanding?_group hkey hname hsequence, hidle, hcrowded, Bool.and_eq_true,
        decide_eq_true_eq, and_assoc, ← h, ← hstanding]
      cases c.standing (groupStanding children) <;> simp

mutual

/-- A filter is vacuous if its conditions are idle and nowhere crowded. -/
theorem vacuous_iff : (tree : Value) → (Vacuous tree ↔ idle tree ∧ ¬ crowded tree)
  | .null => by simp [Vacuous, standing, idle, crowded]
  | .map es => by
    have hentries := standings_eq_trivial_iff es
    -- Each entry may be vacuous by itself; the filter adds that one of them at most is written.
    rw [Vacuous, standing, Standing.conjunction_eq_trivial_iff, hentries, idle, crowded]
    simp only [Bool.or_eq_true, decide_eq_true_eq, not_or, Nat.not_lt]
    rw [and_assoc, and_comm (a := ¬ entriesCrowded es)]
  | .bool _ | .int _ | .real _ | .str _ | .bytes _ | .list _ | .tuple _ | .pattern _ | .foreign _
  | .subquery _ | .record _ _ => by simp [Vacuous, standing, idle]

theorem standings_eq_trivial_iff : (es : List (Value × Value)) →
    ((∀ standing ∈ standings es, standing = .trivial) ↔ entriesIdle es ∧ ¬ entriesCrowded es)
  | [] => by simp [standings, entriesIdle, entriesCrowded]
  | (key, value) :: es => by
    have hentry := entryStanding?_ne_restricting_iff key value
    have hrest := standings_eq_trivial_iff es
    rw [standings, List.forall_mem_append, forall_toList_eq_trivial_iff, hentry, hrest, entriesIdle,
      entriesCrowded]
    simp only [Bool.and_eq_true, Bool.or_eq_true, not_or]
    exact and_and_and_comm

theorem entryStanding?_ne_restricting_iff (key : Value) : (value : Value) →
    (entryStanding? key value ≠ some .restricting ↔ entryIdle key value ∧ ¬ entryCrowded key value)
  | .list children => by
    exact group_ne_restricting_iff rfl (groupStanding_eq_trivial_iff children)
  | .tuple children => by
    exact group_ne_restricting_iff rfl (groupStanding_eq_trivial_iff children)
  | .map es => by
    rw [entryStanding?.eq_def, entryIdle.eq_def, entryCrowded.eq_def]
    cases key.operator? with
    | none => simpa using fieldStanding?_ne_restricting_iff
    | some name => simp
  | .null | .bool _ | .int _ | .real _ | .str _ | .bytes _ | .pattern _ | .foreign _ | .subquery _
  | .record _ _ => by
    rw [entryStanding?.eq_def, entryIdle.eq_def]
    cases key.operator? <;> simp

theorem groupStanding_eq_trivial_iff : (children : List Value) →
    (groupStanding children = .trivial ↔ childrenIdle children ∧ ¬ childrenCrowded children)
  | [] => by simp [groupStanding, childrenIdle, childrenCrowded]
  | .map es :: children => by
    have hchild := vacuous_iff (.map es)
    have hrest := groupStanding_eq_trivial_iff children
    have hgroup : groupStanding (.map es :: children) = .trivial ↔
        Vacuous (.map es) ∧ groupStanding children = .trivial := by
      rw [groupStanding, Vacuous]
      cases standing (.map es) <;> simp
    rw [hgroup, hchild, hrest, childrenIdle, childrenCrowded]
    simp only [Bool.and_eq_true, Bool.or_eq_true, not_or]
    exact and_and_and_comm
  | .null :: _ | .bool _ :: _ | .int _ :: _ | .real _ :: _ | .str _ :: _ | .bytes _ :: _
  | .list _ :: _ | .tuple _ :: _ | .pattern _ :: _ | .foreign _ :: _ | .subquery _ :: _
  | .record _ _ :: _ => by simp [groupStanding, childrenIdle]

end

end Filter

def Vocabulary.Plain (V : Vocabulary) : Prop := ∀ name, V.handler name = none

theorem Vocabulary.Plain.tidyHandlers {V : Vocabulary} (h : V.Plain) : Filter.TidyHandlers V := by
  intro name write field operand s hwrite
  rw [h name] at hwrite
  cases hwrite

def Scope.Plain (scope : Scope) : Prop := ∀ name, scope.registry.find? name = none

theorem Scope.Plain.vocabulary {scope : Scope} (h : scope.Plain) : scope.vocabulary.Plain :=
  fun name => by simp [Scope.vocabulary, Registry.writes, h name]

theorem Scope.Plain.appends {scope : Scope} (h : scope.Plain) : scope.Appends := by
  intro name handler hfind
  rw [h name] at hfind
  cases hfind

namespace Filter

open Compile Fragments

theorem not_bare_of_blank {s : String} (h : ' ' ∈ s.toList) : ¬Text.Bare s :=
  fun hb => absurd (hb ' ' h) (by decide)

theorem not_bare_around (fs : Fragments) : ¬Text.Bare (around "(" fs ")").sql :=
  fun hb => absurd (hb '(' (by simp)) (by decide)

theorem not_bare_negated (fs : Fragments) : ¬Text.Bare (around "NOT (" fs ")").sql :=
  not_bare_of_blank (by simp)

theorem not_bare_joined (fs gs : Fragments) (rows : List Fragments) (separator : String)
    (h : ' ' ∈ separator.toList) : ¬Text.Bare (joined separator (fs :: gs :: rows)).sql := by
  refine not_bare_of_blank ?_
  simp [joined, Fragment.sql, h]

theorem not_bare_spelled (c : Connective) (fs : Fragments) (rows : List Fragments) :
    ¬Text.Bare (c.spelled (fs :: rows)).sql := by
  cases c with
  | all =>
    cases rows with
    | nil => exact not_bare_around fs
    | cons gs rows => exact not_bare_joined _ _ _ _ (by simp)
  | any => exact not_bare_around _
  | none => exact not_bare_negated _

variable {V : Vocabulary} {field : Value}

theorem SpellsMembers.standing {m : Membership} {vs : List Value} {fs : Fragments}
    (h : SpellsMembers V field m vs fs) :
    (if vs = [] then m.standingOfEmpty else .restricting).Of fs := by
  cases h with
  | empty =>
    have htext : sql [.text m.ofEmpty] = m.ofEmpty := by simp [Fragment.sql]
    cases m with
    | among =>
      refine fun hb => absurd (hb '0' ?_) (by decide)
      rw [htext]
      decide
    | outside => exact htext
    | containsAll => exact htext
  | mixed some =>
    have hne : vs ≠ [] := by
      rintro rfl
      cases some
    rw [if_neg hne]
    exact not_bare_of_blank (by simp)
  | contained nonempty =>
    rw [if_neg nonempty]
    exact not_bare_around _
  | listed nonempty =>
    rw [if_neg nonempty]
    exact not_bare_of_blank (by simp)

theorem operatorStanding_member {key operand : Value} {m : Membership} {vs : List Value}
    (hkey : key.operator?.bind Operator.ofName? = some (.member m))
    (hvs : operand.sequence? = some vs) :
    operatorStanding key operand = if vs = [] then m.standingOfEmpty else .restricting := by
  unfold operatorStanding
  rw [hkey, hvs]
  cases vs <;> simp

theorem operatorStanding_other {key : Value} {operator : Operator} (operand : Value)
    (hkey : key.operator?.bind Operator.ofName? = some operator)
    (h : ∀ m, operator ≠ .member m) : operatorStanding key operand = .restricting := by
  unfold operatorStanding
  rw [hkey]
  cases operator with
  | member m => exact absurd rfl (h m)
  | _ => rfl

theorem operatorStanding_single {key operand : Value} (h : operand.sequence? = none) :
    operatorStanding key operand = .restricting := by
  unfold operatorStanding
  split
  · simp_all
  · rfl

theorem SpellsSimple.standing {key operand : Value} {operator : Operator} {fs : Fragments}
    (hkey : key.operator?.bind Operator.ofName? = some operator)
    (h : SpellsSimple V field operator operand fs) : (operatorStanding key operand).Of fs := by
  have hother := operatorStanding_other operand hkey
  cases h with
  | member items members =>
    rw [operatorStanding_member hkey items]
    exact members.standing
  | compare => exact hother (by simp) ▸ not_bare_of_blank (by simp)
  | present =>
    rw [hother (by simp)]
    refine not_bare_of_blank ?_
    split <;> simp [Fragment.sql]
  | size => exact hother (by simp) ▸ not_bare_of_blank (by simp [Fragment.sql])
  | element => exact hother (by simp) ▸ not_bare_of_blank (by simp [Dialect.jsonContains])
  | regex => exact hother (by simp) ▸ not_bare_of_blank (by simp [Dialect.regexMatch])
  | like => exact hother (by simp) ▸ not_bare_of_blank (by simp [Fragment.sql])
  | negatedText => exact hother (by simp) ▸ not_bare_negated _
  | negatedPattern => exact hother (by simp) ▸ not_bare_negated _

theorem SpellsOperator.standing (hV : V.Plain) {key operand : Value} {name : String}
    {fs : Fragments} (marked : key.operator? = some name)
    (h : SpellsOperator V field name operand fs) : (operatorStanding key operand).Of fs := by
  cases h with
  | plugged registered =>
    rw [hV name] at registered
    cases registered
  | subquery =>
    rw [operatorStanding_single rfl]
    exact not_bare_of_blank (by simp)
  | negation =>
    rw [operatorStanding_single rfl]
    exact not_bare_negated _
  | simple _ known _ applied => exact applied.standing (by simp [marked, known])

def Stands : Option Standing → Fragments → Prop
  | none, fs => fs.sql = ""
  | some standing, fs => standing.Of fs

theorem SpellsOperators.standing (hV : V.Plain) {es : Entries} {rows : List Fragments}
    (h : SpellsOperators V field es rows) : Stands (fieldStanding? es) (fieldConjunction rows) := by
  cases h with
  | nil => rfl
  | plain unmarked rest =>
    cases rest with
    | nil =>
      simp only [fieldStanding?, operatorStanding, unmarked, Option.bind_none]
      exact not_bare_of_blank (by simp [fieldConjunction])
    | plain => exact not_bare_around _
    | operator => exact not_bare_around _
  | operator marked first rest =>
    cases rest with
    | nil => exact first.standing hV marked
    | plain => exact not_bare_around _
    | operator => exact not_bare_around _

theorem conjunction_standing {all : List Standing} {rows : List Fragments}
    (h : List.Forall₂ Standing.Of all rows) : (Standing.conjunction all).Of (conjunction rows) := by
  cases h with
  | nil => simp [Standing.conjunction, Standing.Of, conjunction, Fragment.sql]
  | cons hfirst hrest =>
    cases hrest with
    | nil => exact hfirst
    | cons => exact not_bare_joined _ _ _ _ (by simp)

theorem spelled_standing (c : Connective) (rows : List Fragments) :
    (c.standing (if rows = [] then .trivial else .restricting)).Of (c.spelled rows) := by
  cases rows with
  | nil =>
    cases c with
    | any => exact fun hb => absurd (hb '0' (by decide)) (by decide)
    | all => simp [Connective.standing, Standing.Of, Connective.spelled, Fragment.sql]
    | none => simp [Connective.standing, Standing.Of, Connective.spelled, Fragment.sql]
  | cons fs rows => cases c <;> exact not_bare_spelled _ fs rows

theorem entryIdle_other {key value : Value} (hsequence : value.sequence? = none)
    (hflat : value.entries? = none) : ¬ entryIdle key value := by
  rw [entryIdle.eq_def]
  cases value with
  | list items => cases hsequence
  | tuple items => cases hsequence
  | map es => cases hflat
  | _ => cases key.operator? <;> simp

mutual

theorem Spells.standing (hV : V.Plain) {tree : Value} {fs : Fragments} :
    Spells V tree fs → (Filter.standing tree).Of fs
  | .null => by simp [Filter.standing, Standing.Of, conjunction, Fragment.sql]
  | .map entries => by
    have hrows := entries.standing hV
    rw [Filter.standing]
    exact conjunction_standing hrows

theorem SpellsEntries.standing (hV : V.Plain) {es : Entries} {rows : List Fragments} :
    SpellsEntries V es rows → List.Forall₂ Standing.Of (standings es) rows
  | .nil => by
    rw [standings]
    exact .nil
  | .silent first nothing rest => by
    have hfirst := first.standing hV
    have hrest := rest.standing hV
    rw [standings]
    cases hstanding : entryStanding? _ _ with
    | none => exact hrest
    | some standing =>
      rw [hstanding] at hfirst
      exact absurd nothing hfirst.ne_empty
  | .cons first something rest => by
    have hfirst := first.standing hV
    have hrest := rest.standing hV
    rw [standings]
    cases hstanding : entryStanding? _ _ with
    | none =>
      rw [hstanding] at hfirst
      exact absurd hfirst something
    | some standing =>
      rw [hstanding] at hfirst
      exact .cons hfirst hrest

theorem SpellsEntry.standing (hV : V.Plain) {key value : Value} {fs : Fragments} :
    SpellsEntry V key value fs → Stands (entryStanding? key value) fs
  | @SpellsEntry.group _ _ _ _ c children rows marked known sequence filters => by
    rw [entryStanding?_group marked known sequence, filters.standing hV]
    exact spelled_standing c rows
  | .subquery unmarked _ => by
    rw [entryStanding?.eq_def]
    simp only [unmarked]
    exact not_bare_of_blank (by simp)
  | .operators unmarked operators => by
    rw [entryStanding?.eq_def]
    simp only [unmarked]
    exact operators.standing hV
  | .literal unmarked single flat => by
    rw [entryStanding?.eq_def]
    simp only [unmarked]
    cases value with
    | map es => cases flat
    | _ => exact not_bare_of_blank (by simp)

theorem SpellsChildren.standing (hV : V.Plain) {children : List Value} {rows : List Fragments} :
    SpellsChildren V children rows →
      groupStanding children = if rows = [] then .trivial else .restricting
  | .nil => by rw [groupStanding, if_pos rfl]
  | .vacuous first always rest => by
    have hfirst := first.standing hV
    have hrest := rest.standing hV
    have hne := hfirst.ne_empty
    rw [groupStanding, hfirst.trivial_iff.mpr (always.resolve_left hne)]
    exact hrest
  | .cons first restricting rest => by
    have hfirst := first.standing hV
    rw [groupStanding, if_neg (List.cons_ne_nil _ _)]
    cases hstanding : Filter.standing (.map _) with
    | trivial => exact absurd (.inr (hfirst.trivial_iff.mp hstanding)) restricting
    | restricting => rfl

end

theorem operatorStanding_eq_trivial {key operand : Value}
    (h : operatorStanding key operand = .trivial) : ∃ name m, key.operator? = some name ∧
      Operator.ofName? name = some (.member m) ∧ operand.sequence? = some [] := by
  unfold operatorStanding at h
  split at h
  · rename_i m hkey hempty
    obtain ⟨name, hname, hm⟩ := Option.bind_eq_some_iff.mp hkey
    exact ⟨name, m, hname, hm, hempty⟩
  · cases h

/-- Idle operators are written without values. -/
theorem field_spelled (hV : V.Plain) (field : Value) {es : Entries} (h : fieldIdle es) :
    ∃ rows, SpellsOperators V field es rows ∧ rows.flatMap params = [] := by
  induction es with
  | nil => exact ⟨[], .nil, rfl⟩
  | cons e es ih =>
    obtain ⟨key, operand⟩ := e
    rw [fieldIdle, List.all_cons, Bool.and_eq_true, decide_eq_true_eq] at h
    obtain ⟨name, m, hname, hm, hempty⟩ := operatorStanding_eq_trivial h.1
    obtain ⟨rows, hrows, hparams⟩ := ih h.2
    have hsingle : operand.isSubquery = false := by
      cases operand with
      | subquery ref => cases hempty
      | _ => rfl
    refine ⟨_, .operator hname (.simple (hV name) hm hsingle (.member hempty (.empty m))) hrows, ?_⟩
    rw [List.flatMap_cons, hparams]
    rfl

theorem SpellsEntries.ofEntry {key value : Value} {fs : Fragments} {es : Entries}
    {rows : List Fragments} (first : SpellsEntry V key value fs) (hfirst : fs.params = [])
    (rest : SpellsEntries V es rows) (hrest : rows.flatMap params = []) :
    ∃ rows', SpellsEntries V ((key, value) :: es) rows' ∧ rows'.flatMap params = [] := by
  by_cases h : fs.sql = ""
  · exact ⟨rows, .silent first h rest, hrest⟩
  · exact ⟨fs :: rows, .cons first h rest, by rw [List.flatMap_cons, hfirst, hrest]; rfl⟩

theorem SpellsChildren.ofChild {es : Entries} {fs : Fragments} {children : List Value}
    {rows : List Fragments} (first : Spells V (.map es) fs) (hfirst : fs.params = [])
    (rest : SpellsChildren V children rows) (hrest : rows.flatMap params = []) :
    ∃ rows', SpellsChildren V (.map es :: children) rows' ∧ rows'.flatMap params = [] := by
  by_cases h : fs.sql = "" ∨ fs.sql = Dialect.alwaysTrue
  · exact ⟨rows, .vacuous first h rest, hrest⟩
  · exact ⟨fs :: rows, .cons first h rest, by rw [List.flatMap_cons, hfirst, hrest]; rfl⟩

/-- A list is that of a group of idle filters. -/
theorem sequence_of_idle {key value : Value} {children : List Value}
    (hsequence : value.sequence? = some children) (h : entryIdle key value) :
    ∃ name c, key.operator? = some name ∧ Connective.ofName? name = some c ∧ childrenIdle children := by
  rw [entryIdle.eq_def] at h
  cases hname : key.operator? with
  | none => cases value <;> simp_all [Value.sequence?]
  | some name =>
    cases hc : Connective.ofName? name with
    | none => simp [hname, hc] at h
    | some c =>
      refine ⟨name, c, rfl, hc, ?_⟩
      cases value <;> simp_all [Value.sequence?]

theorem SpellsEntry.ofGroup {key value : Value} {name : String} {c : Connective}
    {children : List Value} {rows : List Fragments} (hname : key.operator? = some name)
    (hc : Connective.ofName? name = some c) (hsequence : value.sequence? = some children)
    (hrows : SpellsChildren V children rows) (hparams : rows.flatMap params = []) :
    ∃ fs, SpellsEntry V key value fs ∧ fs.params = [] :=
  ⟨c.spelled rows, .group hname hc hsequence hrows, (combine_spelled c rows).2 ▸ hparams⟩

mutual

/-- An idle filter can be written, without values. -/
theorem spells_of_idle (hV : V.Plain) : (tree : Value) → idle tree →
    ∃ fs, Spells V tree fs ∧ fs.params = []
  | .null, _ => ⟨_, .null, rfl⟩
  | .map es, h => by
    rw [idle] at h
    obtain ⟨rows, hrows, hparams⟩ := spellsEntries_of_idle hV es h
    exact ⟨_, .map hrows, by rw [params_conjunction, hparams]⟩

theorem spellsEntries_of_idle (hV : V.Plain) : (es : List (Value × Value)) → entriesIdle es →
    ∃ rows, SpellsEntries V es rows ∧ rows.flatMap params = []
  | [], _ => ⟨[], .nil, rfl⟩
  | (key, value) :: es, h => by
    rw [entriesIdle, Bool.and_eq_true] at h
    obtain ⟨fs, hfs, hfirst⟩ := spellsEntry_of_idle hV key value h.1
    obtain ⟨rows, hrows, hrest⟩ := spellsEntries_of_idle hV es h.2
    exact SpellsEntries.ofEntry hfs hfirst hrows hrest

theorem spellsEntry_of_idle (hV : V.Plain) (key : Value) : (value : Value) → entryIdle key value →
    ∃ fs, SpellsEntry V key value fs ∧ fs.params = []
  | .list children, h => by
    obtain ⟨name, c, hname, hc, hchildren⟩ := sequence_of_idle rfl h
    obtain ⟨rows, hrows, hparams⟩ := spellsChildren_of_idle hV children hchildren
    exact SpellsEntry.ofGroup hname hc rfl hrows hparams
  | .tuple children, h => by
    obtain ⟨name, c, hname, hc, hchildren⟩ := sequence_of_idle rfl h
    obtain ⟨rows, hrows, hparams⟩ := spellsChildren_of_idle hV children hchildren
    exact SpellsEntry.ofGroup hname hc rfl hrows hparams
  | .map es, h => by
    rw [entryIdle.eq_def] at h
    cases hname : key.operator? with
    | none =>
      simp only [hname] at h
      obtain ⟨rows, hrows, hparams⟩ := field_spelled hV key h
      exact ⟨_, .operators hname hrows, by rw [params_fieldConjunction, hparams]⟩
    | some name => simp [hname] at h
  | .null, h | .bool _, h | .int _, h | .real _, h | .str _, h | .bytes _, h | .pattern _, h
  | .foreign _, h | .subquery _, h | .record _ _, h => absurd h (entryIdle_other rfl rfl)

theorem spellsChildren_of_idle (hV : V.Plain) : (children : List Value) → childrenIdle children →
    ∃ rows, SpellsChildren V children rows ∧ rows.flatMap params = []
  | [], _ => ⟨[], .nil, rfl⟩
  | .map es :: children, h => by
    rw [childrenIdle, Bool.and_eq_true] at h
    obtain ⟨fs, hfs, hfirst⟩ := spells_of_idle hV (.map es) h.1
    obtain ⟨rows, hrows, hrest⟩ := spellsChildren_of_idle hV children h.2
    exact SpellsChildren.ofChild hfs hfirst hrows hrest

end

variable {scope : Scope} {tree : Value}

/-- Without handlers, what a filter is compiled to tells whether it is vacuous. -/
theorem compile_standing (hs : scope.Plain) (context : String) :
    Writes (compile scope context tree) fun s _ => s = Dialect.alwaysTrue ↔ Vacuous tree := by
  refine ((compile_spelled hs.appends.within).1 context tree).imp ?_
  rintro _ _ ⟨fs, hfs, rfl, -⟩
  exact (hfs.standing hs.vocabulary).trivial_iff.symm

/-- An idle filter is always compiled, and binds nothing. -/
theorem compile_idle (hs : scope.Plain) (h : idle tree) :
    ∃ text, (text = Dialect.alwaysTrue ↔ Vacuous tree) ∧
      ∀ context, Yields (compile scope context tree) text [] := by
  let V : Vocabulary := ⟨fun _ => none, fun _ _ => False⟩
  have hV : V.Plain := fun _ => rfl
  have hoffers : scope.Offers V := ⟨fun name _ => hs name, nofun, nofun⟩
  obtain ⟨fs, hfs, hparams⟩ := spells_of_idle hV tree h
  refine ⟨fs.sql, (hfs.standing hV).trivial_iff.symm, fun context => ?_⟩
  have hyields := hfs.yields hoffers hV.tidyHandlers context
  rwa [hparams] at hyields

theorem compile_vacuous (hs : scope.Plain) (h : Vacuous tree) (context : String) :
    Yields (compile scope context tree) Dialect.alwaysTrue [] := by
  obtain ⟨text, htext, hyields⟩ := compile_idle hs ((vacuous_iff tree).mp h).1
  rw [← htext.mpr h]
  exact hyields context

end Filter

end BoundQuery
