import BoundQuery.Proofs.Conjunction
import BoundQuery.Proofs.Reordering

/-! Where filters that restrict nothing are left out. In a group of filters, as a stage of a
pipeline and beside the identities of an update by rows, only the text of a filter tells that it
does not restrict anything. So idle filters are left out exactly if they are not crowded. -/
namespace BoundQuery

theorem Connective.operator?_name (c : Connective) :
    (Value.str c.name).operator? = some c.name := by
  cases c <;> decide

namespace Filter

open Compile Fragments

section Spelling

variable {V : Vocabulary} {es : Entries} {key value value' : Value} {fs : Fragments}
  {rows : List Fragments}

theorem spells_map_iff :
    Spells V (.map es) fs ↔ ∃ rows, SpellsEntries V es rows ∧ conjunction rows = fs := by
  constructor
  · intro h
    cases h with
    | map entries => exact ⟨_, entries, rfl⟩
  · rintro ⟨rows, hrows, rfl⟩
    exact .map hrows

theorem spellsEntries_cons_iff :
    SpellsEntries V ((key, value) :: es) rows ↔ ∃ fs rest, SpellsEntry V key value fs ∧
      SpellsEntries V es rest ∧ rows = if fs.sql = "" then rest else fs :: rest := by
  constructor
  · rintro (_ | ⟨first, nothing, rest⟩ | ⟨first, something, rest⟩)
    · exact ⟨_, _, first, rest, (if_pos nothing).symm⟩
    · exact ⟨_, _, first, rest, (if_neg something).symm⟩
  · rintro ⟨fs, rest, hfirst, hrest, rfl⟩
    split
    · exact .silent hfirst ‹_› hrest
    · exact .cons hfirst ‹_› hrest

theorem spellsChildren_cons_iff {child : Value} {children : List Value} :
    SpellsChildren V (child :: children) rows ↔ ∃ es fs rest, child = .map es ∧
      Spells V (.map es) fs ∧ SpellsChildren V children rest ∧
      rows = if fs.sql = "" ∨ fs.sql = Dialect.alwaysTrue then rest else fs :: rest := by
  constructor
  · rintro (_ | ⟨first, always, rest⟩ | ⟨first, restricting, rest⟩)
    · exact ⟨_, _, _, rfl, first, rest, (if_pos always).symm⟩
    · exact ⟨_, _, _, rfl, first, rest, (if_neg restricting).symm⟩
  · rintro ⟨es, fs, rest, rfl, hfirst, hrest, rfl⟩
    split
    · exact .vacuous hfirst ‹_› hrest
    · exact .cons hfirst ‹_› hrest

theorem spellsEntry_group_iff {c : Connective} {children : List Value}
    (hkey : key.operator? = some c.name) (hvalue : value.sequence? = some children) :
    SpellsEntry V key value fs ↔ ∃ rows, SpellsChildren V children rows ∧ c.spelled rows = fs := by
  constructor
  · intro h
    cases h with
    | @group _ _ name c' children' rows marked known sequence filters =>
      obtain rfl := Option.some.inj (marked.symm.trans hkey)
      obtain rfl := Option.some.inj ((Connective.ofName?_name c).symm.trans known)
      obtain rfl := Option.some.inj (sequence.symm.trans hvalue)
      exact ⟨rows, filters, rfl⟩
    | subquery unmarked => exact absurd (unmarked.symm.trans hkey) nofun
    | operators unmarked => exact absurd (unmarked.symm.trans hkey) nofun
    | literal unmarked => exact absurd (unmarked.symm.trans hkey) nofun
  · rintro ⟨rows, hrows, rfl⟩
    exact .group hkey (Connective.ofName?_name c) hvalue hrows

/-- Entries that are written in the same ways can stand for each other among others. -/
theorem spellsEntries_congr {tail tail' : Entries}
    (h : ∀ rows, SpellsEntries V tail rows ↔ SpellsEntries V tail' rows) (before : Entries) :
    ∀ rows, SpellsEntries V (before ++ tail) rows ↔ SpellsEntries V (before ++ tail') rows := by
  induction before with
  | nil => exact h
  | cons e before ih =>
    obtain ⟨key, value⟩ := e
    intro rows
    simp only [List.cons_append, spellsEntries_cons_iff, ih]

theorem spellsChildren_congr {tail tail' : List Value}
    (h : ∀ rows, SpellsChildren V tail rows ↔ SpellsChildren V tail' rows) (before : List Value) :
    ∀ rows, SpellsChildren V (before ++ tail) rows ↔ SpellsChildren V (before ++ tail') rows := by
  induction before with
  | nil => exact h
  | cons child before ih =>
    intro rows
    simp only [List.cons_append, spellsChildren_cons_iff, ih]

/-- What is written of the filters of a group decides what is of a filter with the group. -/
theorem spells_group_congr {c : Connective} {children children' : List Value}
    (hkey : key.operator? = some c.name) (hvalue : value.sequence? = some children)
    (hvalue' : value'.sequence? = some children')
    (h : ∀ rows, SpellsChildren V children rows ↔ SpellsChildren V children' rows)
    (before after : Entries) : Spells V (.map (before ++ (key, value) :: after)) fs ↔
      Spells V (.map (before ++ (key, value') :: after)) fs := by
  have htail : ∀ rows, SpellsEntries V ((key, value) :: after) rows ↔
      SpellsEntries V ((key, value') :: after) rows := by
    intro rows
    simp only [spellsEntries_cons_iff, spellsEntry_group_iff hkey hvalue,
      spellsEntry_group_iff hkey hvalue', h]
  simp only [spells_map_iff, spellsEntries_congr htail before]

theorem spellsChildren_cons_vacuous (hV : V.Plain) (hvacuous : Vacuous (.map es))
    (after : List Value) (rows : List Fragments) :
    SpellsChildren V (.map es :: after) rows ↔ SpellsChildren V after rows := by
  have hstanding : ∀ fs, Spells V (.map es) fs → fs.sql = Dialect.alwaysTrue := fun fs hfs =>
    (hfs.standing hV).trivial_iff.mp hvacuous
  rw [spellsChildren_cons_iff]
  constructor
  · rintro ⟨es', fs, rest, hes, hfs, hrest, rfl⟩
    obtain rfl := Value.map.inj hes
    rwa [if_pos (.inr (hstanding fs hfs))]
  · intro hrest
    obtain ⟨fs, hfs, -⟩ := spells_of_idle hV (.map es) ((vacuous_iff _).mp hvacuous).1
    exact ⟨es, fs, rows, rfl, hfs, hrest, (if_pos (.inr (hstanding fs hfs))).symm⟩

end Spelling

theorem entriesApplied_append (first second : Entries) :
    entriesApplied (first ++ second) = entriesApplied first ++ entriesApplied second := by
  induction first with
  | nil => simp [entriesApplied]
  | cons e first ih => simp [entriesApplied, ih]

theorem childrenApplied_append (first second : List Value) :
    childrenApplied (first ++ second) = childrenApplied first ++ childrenApplied second := by
  induction first with
  | nil => simp [childrenApplied]
  | cons child rest ih => simp [childrenApplied, ih]

theorem entryApplied_group {key value : Value} {name : String} {children : List Value}
    (hkey : key.operator? = some name) (hvalue : value.sequence? = some children) :
    entryApplied key value = childrenApplied children := by
  rw [entryApplied.eq_def]
  cases value <;> simp_all [Value.sequence?]

/-- The second filter is the first but for `es`, which is not in a group of the connective any
more. The group may be anywhere, also in a filter of another group. -/
inductive Without (c : Connective) (es : Entries) : Entries → Entries → Prop
  | here {key value value' : Value} {before after : List Value} (first rest : Entries)
      (marked : key.operator? = some c.name)
      (present : value.sequence? = some (before ++ .map es :: after))
      (absent : value'.sequence? = some (before ++ after)) :
      Without c es (first ++ (key, value) :: rest) (first ++ (key, value') :: rest)
  | inside {outer : Connective} {tree tree' : Entries} {key value value' : Value}
      {before after : List Value} (first rest : Entries) (marked : key.operator? = some outer.name)
      (child : Without c es tree tree')
      (present : value.sequence? = some (before ++ .map tree :: after))
      (absent : value'.sequence? = some (before ++ .map tree' :: after)) :
      Without c es (first ++ (key, value) :: rest) (first ++ (key, value') :: rest)

namespace Without

variable {c : Connective} {es tree tree' : Entries}

theorem spells_iff {V : Vocabulary} (hV : V.Plain) (hvacuous : Vacuous (.map es))
    (h : Without c es tree tree') : ∀ fs, Spells V (.map tree) fs ↔ Spells V (.map tree') fs := by
  -- Only the innermost group has a filter less; those around it have one in place of another.
  induction h with
  | @here _ _ _ before after first rest marked present absent =>
    intro fs
    refine spells_group_congr marked present absent ?_ first rest
    exact spellsChildren_congr (spellsChildren_cons_vacuous hV hvacuous after) before
  | @inside outer tree tree' _ _ _ before after first rest marked child present absent ih =>
    intro fs
    refine spells_group_congr marked present absent (spellsChildren_congr (fun rows => ?_) before)
      first rest
    simp only [spellsChildren_cons_iff, Value.map.injEq, exists_eq_left', exists_and_left, ih]

/-- Without the filter, no operators are applied but those that are with it. -/
theorem applied_subset (h : Without c es tree tree') :
    applied (.map tree') ⊆ applied (.map tree) := by
  induction h with
  | here first rest marked present absent =>
    simp only [applied, entriesApplied_append, entriesApplied, entryApplied_group marked present,
      entryApplied_group marked absent, childrenApplied_append, childrenApplied]
    grind
  | inside first rest marked child present absent ih =>
    simp only [applied, entriesApplied_append, entriesApplied, entryApplied_group marked present,
      entryApplied_group marked absent, childrenApplied_append, childrenApplied] at ih ⊢
    grind

theorem unplugged {scope : Scope} (h : Without c es tree tree')
    (htree : Unplugged scope (.map tree)) : Unplugged scope (.map tree') :=
  fun name hname => htree name (h.applied_subset hname)

end Without

section Translating

variable {scope : Scope} {tree : Value} {text : String} {params : List Value}

/-- Without handlers, a filter is translated to what it is written as. -/
theorem translates_iff_spells (hs : scope.Plain) (hsteady : scope.Steady) :
    Translates scope tree text params ↔
      ∃ fs, Spells scope.vocabulary tree fs ∧ fs.sql = text ∧ fs.params = params := by
  constructor
  · intro h
    obtain ⟨j, hj⟩ := h "" {}
    obtain ⟨vs, hvs, fs, hfs, rfl, rfl⟩ := (compile_spelled hs.appends.within).1 _ _ _ _ _ hj
    exact ⟨fs, hfs, rfl, by simpa using hvs.symm⟩
  · rintro ⟨fs, hfs, rfl, rfl⟩ context
    exact hfs.yields (hs.offers hsteady) hs.vocabulary.tidyHandlers context

theorem Unplugged.translates_iff_bare (h : Unplugged scope tree) :
    Translates scope tree text params ↔ Translates scope.bare tree text params := by
  simp only [Translates, h.compile_bare]

theorem Unplugged.translates_iff (h : Unplugged scope tree) (hsteady : scope.Steady) :
    Translates scope tree text params ↔
      ∃ fs, Spells scope.bare.vocabulary tree fs ∧ fs.sql = text ∧ fs.params = params := by
  have hplain : scope.bare.Plain := fun _ => rfl
  rw [h.translates_iff_bare, translates_iff_spells hplain hsteady]

end Translating

/-- No translation tells whether the filter is in a group of the connective. -/
def LeftOutOfGroups (scope : Scope) (c : Connective) (es : Entries) : Prop :=
  ∀ tree tree', Without c es tree tree' → Unplugged scope (.map tree) → ∀ text params,
    Translates scope (.map tree) text params ↔ Translates scope (.map tree') text params

section Groups

variable {V : Vocabulary} {c : Connective} {es : Entries}

theorem spelled_cons_ne (c : Connective) (fs : Fragments) (rows : List Fragments) :
    (c.spelled (fs :: rows)).sql ≠ (c.spelled []).sql := by
  intro h
  cases c with
  | any =>
    have hfirst := congrArg (·.toList.head?) h
    simp [Connective.spelled, Fragment.sql, Dialect.alwaysFalse] at hfirst
  | all => exact not_bare_spelled .all fs rows (h ▸ Text.bare_alwaysTrue)
  | none => exact not_bare_spelled .none fs rows (h ▸ Text.bare_alwaysTrue)

theorem spells_group_alone_iff {children : List Value} {fs : Fragments} :
    Spells V (.map [(.str c.name, .list children)]) fs ↔
      ∃ rows, SpellsChildren V children rows ∧ c.spelled rows = fs := by
  have hwritten : ∀ rows, (c.spelled rows).sql ≠ "" := fun rows =>
    (spelled_standing c rows).ne_empty
  have hnil : ∀ rest, SpellsEntries V [] rest ↔ rest = [] := by
    intro rest
    constructor
    · rintro ⟨⟩
      rfl
    · rintro rfl
      exact .nil
  simp only [spells_map_iff, spellsEntries_cons_iff, hnil,
    spellsEntry_group_iff c.operator?_name (rfl : (Value.list children).sequence? = some children)]
  constructor
  · rintro ⟨_, ⟨_, _, ⟨rows, hrows, rfl⟩, rfl, rfl⟩, rfl⟩
    rw [if_neg (hwritten rows)]
    exact ⟨rows, hrows, rfl⟩
  · rintro ⟨rows, hrows, rfl⟩
    exact ⟨_, ⟨_, _, ⟨rows, hrows, rfl⟩, rfl, (if_neg (hwritten rows)).symm⟩, rfl⟩

/-- A group of one filter that is not vacuous is not written like a group of none. -/
theorem vacuous_of_leftOutOfGroups {scope : Scope} (hsteady : scope.Steady)
    (hplugs : Unplugged scope (.map es)) (h : LeftOutOfGroups scope c es) : Vacuous (.map es) := by
  by_contra hvacuous
  have hplain : scope.bare.Plain := fun _ => rfl
  -- The group of the filter alone tells: without it, nothing is left to write.
  have hpresent : (Value.list [.map es]).sequence? = some ([] ++ .map es :: []) := rfl
  have habsent : (Value.list []).sequence? = some ([] ++ []) := rfl
  have hwithout : Without c es [(.str c.name, .list [.map es])] [(.str c.name, .list [])] :=
    .here [] [] c.operator?_name hpresent habsent
  have hwith : Unplugged scope (.map [(.str c.name, .list [.map es])]) := by
    simpa [Unplugged, applied, entriesApplied, childrenApplied,
      entryApplied_group c.operator?_name hpresent] using hplugs
  have hnone := hwithout.unplugged hwith
  have hempty : Translates scope (.map [(.str c.name, .list [])]) (c.spelled []).sql
      (c.spelled []).params := by
    rw [hnone.translates_iff hsteady]
    exact ⟨_, spells_group_alone_iff.mpr ⟨[], .nil, rfl⟩, rfl, rfl⟩
  rw [← h _ _ hwithout hwith, hwith.translates_iff hsteady] at hempty
  obtain ⟨fs, hfs, hsame, -⟩ := hempty
  obtain ⟨rows, hrows, rfl⟩ := spells_group_alone_iff.mp hfs
  cases rows with
  | nil =>
    have hstanding := hrows.standing hplain.vocabulary
    rw [groupStanding] at hstanding
    cases hes : standing (.map es) with
    | trivial => exact hvacuous hes
    | restricting => simp [hes] at hstanding
  | cons fs rows => exact spelled_cons_ne c fs rows hsame

theorem leftOutOfGroups_iff {scope : Scope} (hsteady : scope.Steady)
    (hplugs : Unplugged scope (.map es)) : LeftOutOfGroups scope c es ↔ Vacuous (.map es) := by
  constructor
  · exact vacuous_of_leftOutOfGroups hsteady hplugs
  · intro hvacuous tree tree' hwithout hwith text params
    have hplain : scope.bare.Plain := fun _ => rfl
    have hnone := hwithout.unplugged hwith
    rw [hwith.translates_iff hsteady, hnone.translates_iff hsteady]
    simp only [hwithout.spells_iff hplain.vocabulary hvacuous]

end Groups

theorem Translates.collect_returns_iff {scope : Scope} {tree : Value} {text : String}
    {params : List Value} (h : Translates scope tree text params) (context : String)
    (bound : List Value) {result : String × List Value} :
    (Compile.collect bound (compile scope context tree)).Returns result ↔
      (text, bound ++ params) = result := by
  constructor
  · rintro ⟨j, j', hj⟩
    obtain ⟨k, hk⟩ := (h context).collect bound j
    rw [hk] at hj
    injection hj
  · rintro rfl
    obtain ⟨k, hk⟩ := (h context).collect bound {}
    exact ⟨{}, k, hk⟩

end Filter

/-- No pipeline tells whether the stage is among its stages. -/
def Stage.LeftOut (scope : Scope) (stage : Stage) : Prop :=
  ∀ table first rest s, (Pipeline.compile scope table (first ++ stage :: rest)).Returns s ↔
    (Pipeline.compile scope table (first ++ rest)).Returns s

def Stage.filter? : Stage → Option Fields
  | .filter tree => some tree
  | .having tree => some tree
  | _ => none

namespace Plan

variable {scope : Scope} {table text : String} {stage : Stage} {tree : Fields} {plan plan' : Plan}

def restrictedBy (plan : Plan) (text : String) : Stage → Plan
  | .filter _ => { plan with conditions := plan.conditions ++ restricting text }
  | .having _ => { plan with having := plan.having ++ restricting text }
  | _ => plan

theorem step_returns_iff_restrictedBy (hstage : stage.filter? = some tree)
    (h : Filter.Translates scope tree.toValue text []) :
    (plan.step scope table stage).Returns plan' ↔ plan.restrictedBy text stage = plan' := by
  cases stage with
  | filter other | having other =>
    obtain rfl := Option.some.inj hstage
    simp only [step]
    rw [Work.returns_bind_iff fun _ => .pure _]
    simp only [h.collect_returns_iff, exists_eq_left', Work.returns_pure_iff, List.append_nil]
    rfl
  | _ => cases hstage

theorem restrictedBy_alwaysTrue : plan.restrictedBy Dialect.alwaysTrue stage = plan := by
  cases stage <;> simp [restrictedBy, restricting]

/-- A statement with one more condition is longer. -/
theorem statement_restrictedBy_ne (hstage : stage.filter? = some tree)
    (htext : text ≠ Dialect.alwaysTrue) (table : String) :
    (restrictedBy {} text stage).statement table ≠ statement {} table := by
  intro hsame
  have hlength := congrArg (·.sql.length) hsame
  have hblank : " ".length = 1 := rfl
  cases stage with
  | filter _ =>
    simp [statement, restrictedBy, restricting, htext, conjunction,
      Builder.length_intercalate_cons] at hlength
    omega
  | having _ =>
    simp [statement, restrictedBy, restricting, htext, conjunction,
      Builder.length_intercalate_cons] at hlength
  | _ => cases hstage

end Plan

namespace Stage

variable {scope : Scope} {stage : Stage}

/-- A stage that leaves every plan as it is makes no difference. -/
theorem leftOut_of_step (hsteady : scope.Steady)
    (h : ∀ table (plan plan' : Plan), (plan.step scope table stage).Returns plan' ↔ plan = plan') :
    stage.LeftOut scope := by
  intro table first rest s
  have hrun : ∀ plan, (Plan.run scope table {} (first ++ stage :: rest)).Returns plan ↔
      (Plan.run scope table {} (first ++ rest)).Returns plan := by
    intro plan
    rw [Plan.run_append, Plan.run_append, Work.returns_bind_iff fun p => p.run_steady hsteady _ _,
      Work.returns_bind_iff fun p => p.run_steady hsteady _ _]
    simp only [Plan.run_cons_returns_iff hsteady, h, exists_eq_left']
  simp only [Pipeline.compile_returns_iff, hrun]

/-- A filter as a stage is seen in the pipeline of this stage alone, unless it always holds. -/
theorem leftOut_iff (hsteady : scope.Steady) {tree : Fields} {text : String}
    (hstage : stage.filter? = some tree) (h : Filter.Translates scope tree.toValue text []) :
    stage.LeftOut scope ↔ text = Dialect.alwaysTrue := by
  have hstep : ∀ table (plan plan' : Plan), (plan.step scope table stage).Returns plan' ↔
      plan.restrictedBy text stage = plan' := fun _ _ _ => Plan.step_returns_iff_restrictedBy hstage h
  constructor
  · intro hleft
    by_contra htext
    have halone : (Pipeline.compile scope "t" ([] ++ stage :: [])).Returns
        ((Plan.restrictedBy {} text stage).statement "t") :=
      Pipeline.compile_returns_iff.mpr ⟨_, (Plan.run_cons_returns_iff hsteady).mpr
        ⟨_, (hstep "t" {} _).mpr rfl, Plan.run_nil_returns_iff.mpr rfl⟩, rfl⟩
    rw [hleft, Pipeline.compile_returns_iff] at halone
    obtain ⟨_, hnone, hsame⟩ := halone
    obtain rfl := Plan.run_nil_returns_iff.mp hnone
    exact Plan.statement_restrictedBy_ne hstage htext "t" hsame.symm
  · rintro rfl
    refine leftOut_of_step hsteady fun table plan plan' => ?_
    rw [hstep, Plan.restrictedBy_alwaysTrue]

end Stage

namespace Update

variable {scope : Scope} {u : Update} {rows : List Entries} {text : String} {params : List Value}

theorem compile_rows_returns_iff (hfilter : u.filter.isEmpty = false)
    (hpayload : u.payload = some (.rows rows))
    (h : Filter.Translates scope u.filter.toTree text params) {s : Statement} :
    (u.compile scope).Returns s ↔ u.StatesRows rows (extraCondition text params) s := by
  have hcompile : ∀ j, (∃ k, u.compile scope j = .ok s k) ↔
      u.StatesRows rows (extraCondition text params) s := by
    intro j
    obtain ⟨k, hk⟩ := (h "UPDATE").collect [] j
    exact compile_statesRows_iff hfilter hpayload hk
  constructor
  · rintro ⟨j, hj⟩
    exact (hcompile j).mp hj
  · intro hs
    exact ⟨{}, (hcompile {}).mpr hs⟩

theorem StatesRows.length_extra {extra extra' : String × List Value} {s : Statement}
    (h : u.StatesRows rows extra s) (h' : u.StatesRows rows extra' s) :
    extra.1.length = extra'.1.length := by
  obtain ⟨-, -, a, ha, rfl⟩ := h
  obtain ⟨-, -, a', ha', hsame⟩ := h'
  obtain rfl := Except.ok.inj (ha.symm.trans ha')
  have hlength := congrArg (·.sql.length) hsame
  simp only [String.length_append] at hlength
  omega

/-- Some update by rows has the filter. -/
theorem exists_statesRows (es : Entries) (extra : String × List Value) :
    ∃ (u : Update) (rows : List Entries) (s : Statement), u.payload = some (.rows rows) ∧
      u.filter = .single es ∧ u.StatesRows rows extra s := by
  let rows : List Entries := [[(.str "id", .int 1), (.str "a", .int 2)]]
  exact ⟨{ table := "t", filter := .single es, payload := some (.rows rows) }, rows, _, rfl, rfl,
    rfl, rfl, _, rfl, rfl⟩

end Update

/-- Of updates by rows, the filter adds nothing to the condition on the identities. -/
def Filter.LeftOutOfRows (scope : Scope) (es : Entries) : Prop :=
  ∀ (u : Update) (rows : List Entries), u.payload = some (.rows rows) → u.filter.isEmpty = false →
    u.filter.toTree = .map es → ∀ s, (u.compile scope).Returns s ↔ u.StatesRows rows ("", []) s

theorem Filter.leftOutOfRows_iff {scope : Scope} {es : Entries} {text : String}
    (h : Filter.Translates scope (.map es) text []) :
    LeftOutOfRows scope es ↔ text = Dialect.alwaysTrue := by
  constructor
  · intro hleft
    by_contra htext
    obtain ⟨u, rows, s, hpayload, hfilter, hs⟩ :=
      Update.exists_statesRows es (Update.extraCondition text [])
    have hnonempty : u.filter.isEmpty = false := by rw [hfilter]; rfl
    have htree : u.filter.toTree = .map es := by rw [hfilter]; rfl
    have hcompile := (Update.compile_rows_returns_iff hnonempty hpayload (htree ▸ h)).mpr hs
    have hlength := hs.length_extra ((hleft u rows hpayload hnonempty htree s).mp hcompile)
    simp [Update.extraCondition, htext] at hlength
  · rintro rfl u rows hpayload hfilter htree s
    rw [Update.compile_rows_returns_iff hfilter hpayload (htree ▸ h)]
    rfl

namespace Filter

/-- Idle filters are always translated, without values; but it depends on how many of their
conditions are written side by side whether they are left out, and it does so everywhere alike. -/
theorem idle_filter_left_out_iff_not_crowded (c : Catalogue) (registry : RegistryId) (es : Entries)
    (hidle : idle (.map es)) (hplugs : Unplugged (c.scope registry) (.map es)) :
    (∃ text, Translates (c.scope registry) (.map es) text [] ∧
      (text = "1=1" ↔ ¬ crowded (.map es))) ∧
    (∀ connective, LeftOutOfGroups (c.scope registry) connective es ↔ ¬ crowded (.map es)) ∧
    (∀ (stage : Stage) (tree : Fields), stage.filter? = some tree → tree.toEntries = es →
      (stage.LeftOut (c.scope registry) ↔ ¬ crowded (.map es))) ∧
    (LeftOutOfRows (c.scope registry) es ↔ ¬ crowded (.map es)) := by
  have hsteady := c.scope_steady registry
  have hplain : (c.scope registry).bare.Plain := fun _ => rfl
  have hvacuous : Vacuous (.map es) ↔ ¬ crowded (.map es) := by
    rw [vacuous_iff, and_iff_right hidle]
  obtain ⟨text, htext, hyields⟩ := compile_idle hplain hidle
  rw [hvacuous] at htext
  have htranslates : Translates (c.scope registry) (.map es) text [] := by
    rw [hplugs.translates_iff_bare]
    exact hyields
  refine ⟨⟨text, htranslates, htext⟩, fun connective => ?_, fun stage tree hstage htree => ?_, ?_⟩
  · rw [leftOutOfGroups_iff hsteady hplugs, hvacuous]
  · subst htree
    rw [Stage.leftOut_iff hsteady hstage htranslates, htext]
  · rw [leftOutOfRows_iff htranslates, htext]

/-- The empty conditions are the only ones, each in a group of its own. -/
def emptyApart : Entries :=
  [(.str "$and", .list [.map [(.str "a", .map [])],
    .map [(.str "$nor", .list [.map [(.str "b", .map [(.str "$nin", .list [])])]])]])]

def emptyTogether : Entries :=
  [(.str "$nor", .list [.map [(.str "a", .map [(.str "$nin", .list [])]),
    (.str "b", .map [(.str "$all", .list [])])]])]

/-- The second filter does not only stay: nothing meets it, though all its conditions are empty. -/
theorem emptyTogether_is_kept :
    (∀ connective, LeftOutOfGroups (({} : Catalogue).scope 0) connective emptyApart) ∧
    (∀ connective, ¬ LeftOutOfGroups (({} : Catalogue).scope 0) connective emptyTogether) ∧
    Translates (({} : Catalogue).scope 0) (.map emptyTogether) "NOT ((1=1 AND 1=1))" [] := by
  obtain ⟨-, happart, -⟩ :=
    idle_filter_left_out_iff_not_crowded {} 0 emptyApart (by decide) (fun _ _ => rfl)
  obtain ⟨⟨text, htranslates, -⟩, htogether, -⟩ :=
    idle_filter_left_out_iff_not_crowded {} 0 emptyTogether (by decide) (fun _ _ => rfl)
  refine ⟨fun connective => (happart connective).mpr (by decide),
    fun connective => (htogether connective).not.mpr (by decide), ?_⟩
  obtain ⟨j, hj⟩ := htranslates "" {}
  have hcompiled : ∃ d, compile (({} : Catalogue).scope 0) "" (.map emptyTogether) {} =
      .ok "NOT ((1=1 AND 1=1))" d := ⟨_, rfl⟩
  obtain ⟨d, hd⟩ := hcompiled
  rw [hj] at hd
  injection hd with htext
  exact htext ▸ htranslates

end Filter

end BoundQuery
