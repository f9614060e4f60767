import Mathlib
import BoundQuery.Proofs.Alignment.Filter
import BoundQuery.Proofs.Applied
import BoundQuery.Registry.Stock

/-! Conditions stay aligned with their values whatever handlers take part, as long as each of them
aligns what it writes for a field whose name has no placeholder. How it treats other fields, and
sub-queries that the filter does not hold, has no part in it. -/
namespace BoundQuery

/-- Nothing is bound for a text without placeholders. -/
theorem Aligned.params_eq_nil {s : String} {vs : List Value} (h : Aligned s vs)
    (hs : NoPlaceholder s) : vs = [] := by
  have hcount : s.toList.count '?' = 0 := List.count_eq_zero.mpr hs
  exact List.length_eq_zero_iff.mp (h.count_eq_length.symm.trans hcount)

theorem Aligned.tidy {s : Statement} (h : Aligned s.sql s.params) : Fragments.Tidy [.whole s] := by
  intro hbare
  have hsql : Fragments.sql [.whole s] = s.sql := by simp [Fragment.sql]
  have hparams : Fragments.params [.whole s] = s.params := by simp [Fragment.params]
  rw [hsql] at hbare
  rw [hparams]
  refine h.params_eq_nil fun hmem => ?_
  rcases hbare _ hmem with hc | hc
  · exact absurd hc (by decide)
  · exact absurd hc (by decide)

/-- A handler that, for a field whose name has no placeholder, only appends values and returns a
text aligned with them, if it returns. -/
def Handler.Aligns (h : Handler) : Prop :=
  ∀ field operand context params params' clause, NoPlaceholder field.text →
    h field operand context params = (params', .ok clause) →
      ∃ s : Statement, clause = .str s.sql ∧ params' = params ++ s.params ∧
        BoundQuery.Aligned s.sql s.params

theorem Handler.startsWith_aligns : Handler.startsWith.Aligns := by
  rintro field operand context params _ _ hfield ⟨⟩
  refine ⟨⟨field.text ++ " LIKE ?", [.str (operand.text ++ "%")]⟩, rfl, rfl, ?_⟩
  have htext : BoundQuery.Aligned (field.text ++ " LIKE ") [] := .text (by simp +decide [hfield])
  have hvalue := htext.append (.placeholder (.str (operand.text ++ "%")))
  rwa [String.append_assoc] at hvalue

theorem Handler.constant_aligns {s : String} (hs : NoPlaceholder s) :
    (Handler.constant (.str s)).Aligns := by
  rintro field operand context params _ _ - ⟨⟩
  exact ⟨⟨s, []⟩, rfl, (List.append_nil _).symm, .text hs⟩

def Work.Aligns (work : Work Statement) : Prop :=
  ∀ j s j', work j = .ok s j' → Aligned s.sql s.params

def Handler.guarded (h : Handler) : Handler := fun field operand context params =>
  if NoPlaceholder field.text then h field operand context params else (params, .error .circular)

theorem Handler.Aligns.guarded {h : Handler} (hh : h.Aligns) : h.guarded.Aligned where
  appends := by
    intro field operand context params params' clause hcall
    unfold Handler.guarded at hcall
    split at hcall
    · obtain ⟨s, hclause, hparams, haligned⟩ := hh _ _ _ _ _ _ ‹_› hcall
      exact ⟨s, hclause, hparams, haligned.tidy⟩
    · cases hcall
  aligned := by
    intro field operand context params s hfield hcall
    rw [Handler.guarded, if_pos hfield] at hcall
    obtain ⟨t, hclause, hparams, haligned⟩ := hh _ _ _ _ _ _ hfield hcall
    rwa [Value.str.inj hclause, List.append_cancel_left hparams]

def Registry.guarded (r : Registry) : Registry :=
  ⟨r.handlers.map fun entry => (entry.1, entry.2.guarded)⟩

theorem Registry.find?_guarded (r : Registry) (name : String) :
    r.guarded.find? name = (r.find? name).map Handler.guarded := by
  obtain ⟨handlers⟩ := r
  induction handlers with
  | nil => rfl
  | cons entry handlers ih =>
    obtain ⟨operator, h⟩ := entry
    by_cases hname : name == operator
    · simp [Registry.guarded, Registry.find?, List.lookup_cons, hname]
    · simpa [Registry.guarded, Registry.find?, List.lookup_cons, hname] using ih

open Classical in
noncomputable def Scope.guarded (scope : Scope) : Scope where
  registry := scope.registry.guarded
  embed ref := if (scope.embed ref).Aligns then scope.embed ref else throw .circular

theorem Scope.guarded_aligned {scope : Scope}
    (hs : ∀ name h, scope.registry.find? name = some h → h.Aligns) : scope.guarded.Aligned where
  handlers := by
    intro name h hfind
    obtain ⟨g, hg, rfl⟩ := Option.map_eq_some_iff.mp ((Registry.find?_guarded ..).symm.trans hfind)
    exact (hs name g hg).guarded
  embed := by
    intro ref j s j' hj
    simp only [Scope.guarded] at hj
    split at hj
    · exact ‹(scope.embed ref).Aligns› j s j' hj
    · cases hj

namespace Filter

open Compile

variable {scope : Scope} {tree : Value}

/-- The guards are not met on the way. -/
theorem guarded_agrees (hnames : Names NoPlaceholder tree)
    (hembedded : ∀ ref, .subquery ref ∈ demands tree → (scope.embed ref).Aligns) :
    ∀ d ∈ demands tree, scope.AgreeOn scope.guarded d := by
  intro d hd
  cases d with
  | operator field name operand =>
    have hfield := (demands_applied.1 tree hd).2 hnames
    have hsame : ∀ h : Handler, h.guarded field operand = h field operand := by
      intro h
      funext context params
      exact if_pos hfield
    simp only [Scope.AgreeOn, Scope.guarded, Registry.find?_guarded, Option.map_map]
    cases scope.registry.find? name with
    | none => rfl
    | some h => exact congrArg some (hsame h).symm
  | subquery ref => exact (if_pos (hembedded ref hd)).symm

theorem entryClause_writes (hs : scope.Aligned) (context : String) {key value : Value}
    (hnames : EntryNames NoPlaceholder key value) :
    Writes (entryClause scope context key value)
      fun clause vs => ∃ s, clause = .str s ∧ Aligned s vs := by
  have happends : scope.Appends := fun name h hfind => (hs.handlers name h hfind).appends
  refine ((compile_spelled happends.within).2.2.1 context key value).imp ?_
  rintro _ _ ⟨fs, hfs, rfl, rfl⟩
  exact ⟨fs.sql, rfl, hfs.keeps hs.vocabulary hnames 0⟩

theorem truthy_str {s : String} (h : (Value.str s).truthy = false) : s = "" := by
  simpa [Value.truthy] using h

/-- A condition is aligned with the values bound for it, whatever handlers take part. A filter that
a group leaves out, or an entry that a filter leaves out, has bound nothing. -/
theorem compile_aligned_with_handlers
    (hhandlers : ∀ name h, scope.registry.find? name = some h → h.Aligns)
    (hnames : Names NoPlaceholder tree)
    (hembedded : ∀ ref, .subquery ref ∈ demands tree → (scope.embed ref).Aligns)
    (context : String) :
    (∀ d text d', compile scope context tree d = .ok text d' →
      ∃ vs, d'.params = d.params ++ vs ∧ Aligned text vs) ∧
    (∀ d text d', compile scope context tree d = .ok text d' →
      text = "" ∨ text = Dialect.alwaysTrue → d'.params = d.params) ∧
    ∀ entries, tree = .map entries → ∀ key value, (key, value) ∈ entries → ∀ d clause d',
      entryClause scope context key value d = .ok clause d' → clause.truthy = false →
        d'.params = d.params := by
  have haligned := Scope.guarded_aligned hhandlers
  have hagree := guarded_agrees hnames hembedded
  have hwrites : Writes (compile scope context tree) Aligned := by
    rw [compile_congr hagree]
    exact compile_writes haligned context hnames
  refine ⟨hwrites, ?_, ?_⟩
  · intro d text d' hd hdropped
    obtain ⟨vs, hvs, htext⟩ := hwrites d text d' hd
    have hplain : NoPlaceholder text := by
      rcases hdropped with rfl | rfl
      · decide
      · decide
    rw [hvs, htext.params_eq_nil hplain, List.append_nil]
  · rintro entries rfl key value hmem d clause d' hd hdropped
    rw [demands] at hagree
    rw [trees_congr.2.2.1 context key value fun d hd => hagree d (mem_entriesDemands hmem hd)] at hd
    have hentry : EntryNames NoPlaceholder key value := EntriesNames.entry hnames hmem
    obtain ⟨vs, hvs, s, rfl, htext⟩ := entryClause_writes haligned context hentry d clause d' hd
    obtain rfl := truthy_str hdropped
    rw [hvs, htext.params_eq_nil (by decide), List.append_nil]

def prefixScope : Scope where
  registry := ⟨[("$prefix", .startsWith), ("$any", .constant (.str "1=1"))]⟩
  embed _ := pure ⟨"(SELECT id FROM u WHERE x = ?)", [.int 7]⟩

def prefixFilter : Value :=
  .map [(.str "name", .map [(.str "$prefix", .str "A")]),
    (.str "$or", .list [.map [(.str "c", .map [(.str "$any", .int 0)])],
      .map [(.str "d", .subquery ⟨0, "ids"⟩)]])]

/-- The condition of the second handler is left out, and a sub-query is compiled after it. -/
theorem prefixFilter_aligned : ∃ d',
    compile prefixScope "root" prefixFilter {} =
      .ok "name LIKE ? AND ((d IN (SELECT id FROM u WHERE x = ?)))" d' ∧
    d'.params = [.str "A%", .int 7] ∧
    Aligned "name LIKE ? AND ((d IN (SELECT id FROM u WHERE x = ?)))" d'.params := by
  have hresult : ∃ j, compile prefixScope "root" prefixFilter {} =
      .ok "name LIKE ? AND ((d IN (SELECT id FROM u WHERE x = ?)))" ⟨[.str "A%", .int 7], j⟩ := by
    refine ⟨?_, ?_⟩
    rotate_left
    · cbv
      rfl
  obtain ⟨j, hj⟩ := hresult
  have hhandlers : ∀ name h, prefixScope.registry.find? name = some h → h.Aligns := by
    intro name h hfind
    simp only [prefixScope, Registry.find?, List.lookup_cons, List.lookup_nil] at hfind
    split at hfind
    · obtain rfl := Option.some.inj hfind
      exact Handler.startsWith_aligns
    · split at hfind
      · obtain rfl := Option.some.inj hfind
        exact Handler.constant_aligns (by decide)
      · cases hfind
  have hnames : Names NoPlaceholder prefixFilter := by
    simp +decide [prefixFilter, Names, EntriesNames, EntryNames.eq_def, ChildrenNames,
      Value.operator?]
  have hembedded : ∀ ref, .subquery ref ∈ demands prefixFilter → (prefixScope.embed ref).Aligns := by
    rintro ref - j _ _ ⟨rfl, rfl⟩
    exact ⟨[.text "(SELECT id FROM u WHERE x = " (by decide), .value (.int 7),
      .text ")" (by decide)], by decide, rfl⟩
  obtain ⟨vs, hvs, haligned⟩ :=
    (compile_aligned_with_handlers hhandlers hnames hembedded "root").1 _ _ _ hj
  obtain rfl : [.str "A%", .int 7] = vs := hvs
  exact ⟨_, hj, rfl, haligned⟩

end Filter

end BoundQuery
