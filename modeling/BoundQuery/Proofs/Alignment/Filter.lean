import BoundQuery.Proofs.Discipline.Filter

/-! Conditions are aligned with the values that compiling them binds. -/
namespace BoundQuery

/-- A handler that only appends values, and returns a text aligned with them. -/
structure Handler.Aligned (h : Handler) : Prop where
  appends : h.Appends
  aligned : ∀ field operand context params (s : Statement), NoPlaceholder field.text →
    h field operand context params = (params ++ s.params, .ok (.str s.sql)) →
      BoundQuery.Aligned s.sql s.params

structure Scope.Aligned (scope : Scope) : Prop where
  handlers : ∀ name h, scope.registry.find? name = some h → h.Aligned
  embed : ∀ ref j s j', scope.embed ref j = .ok s j' → BoundQuery.Aligned s.sql s.params

theorem Scope.Aligned.vocabulary {scope : Scope} (hs : scope.Aligned) :
    scope.vocabulary.Keeps .aligned where
  handler := by
    intro name write field operand s hwrite hf hs' _
    obtain ⟨h, hfind, rfl⟩ := Option.map_eq_some_iff.mp hwrite
    obtain ⟨context, params, hcall⟩ := hs'
    exact (hs.handlers name h hfind).aligned field operand context params s hf hcall
  subquery := by
    rintro ref s ⟨j, j', h⟩ _
    exact hs.embed ref j s j' h

def Fragments.InOrder (fs : Fragments) : Prop := Aligned fs.sql fs.params

theorem Fragments.InOrder.whole {s : Statement} (h : Aligned s.sql s.params) :
    InOrder [.whole s] :=
  Keeps.whole (D := .aligned) (fun _ => h) 0

theorem Fragments.InOrder.enclosed {fs : Fragments} (h : fs.InOrder) :
    (around "(" fs ")").InOrder :=
  Filter.enclosed_keeps (D := .aligned) (fun _ => h) 0

namespace Filter

/-- A condition is aligned with its values if the names of the fields have no placeholders. -/
theorem compile_writes {scope : Scope} (hs : scope.Aligned) (context : String) {tree : Value}
    (hn : Names NoPlaceholder tree) : Compile.Writes (compile scope context tree) Aligned := by
  have happends : scope.Appends := fun name h hfind => (hs.handlers name h hfind).appends
  refine ((compile_spelled happends.within).1 context tree).imp ?_
  rintro _ _ ⟨fs, hfs, rfl, rfl⟩
  exact hfs.keeps hs.vocabulary hn 0

end Filter

end BoundQuery
