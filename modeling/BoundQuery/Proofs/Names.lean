import BoundQuery.Value.Show

/-! The names that a filter gives to fields. Names stand in the text of a condition as they are;
a key inside the operators of a field does not. -/
namespace BoundQuery.Filter

mutual

/-- Every field of the filter has a name that satisfies `p`. -/
def Names (p : String → Prop) : Value → Prop
  | .map entries => EntriesNames p entries
  | _ => True

def EntriesNames (p : String → Prop) : List (Value × Value) → Prop
  | [] => True
  | (key, value) :: rest => EntryNames p key value ∧ EntriesNames p rest

def EntryNames (p : String → Prop) (key value : Value) : Prop :=
  match key.operator? with
  | some _ =>
    match value with
    | .list children => ChildrenNames p children
    | .tuple children => ChildrenNames p children
    | _ => True
  | none => p key.text

def ChildrenNames (p : String → Prop) : List Value → Prop
  | [] => True
  | child :: rest => Names p child ∧ ChildrenNames p rest

end

theorem EntriesNames.entry {p : String → Prop} {es : List (Value × Value)} {key value : Value}
    (h : EntriesNames p es) (hmem : (key, value) ∈ es) : EntryNames p key value := by
  induction es with
  | nil => cases hmem
  | cons e es ih =>
    obtain ⟨hfirst, hrest⟩ := h
    rcases List.mem_cons.mp hmem with rfl | hmem
    · exact hfirst
    · exact ih hrest hmem

theorem EntryNames.text {p : String → Prop} {key value : Value} (h : EntryNames p key value)
    (hkey : key.operator? = none) : p key.text := by
  simpa only [EntryNames.eq_def, hkey] using h

theorem EntryNames.children {p : String → Prop} {key value : Value} {name : String}
    {children : List Value} (h : EntryNames p key value) (hkey : key.operator? = some name)
    (hvalue : value.sequence? = some children) : ChildrenNames p children := by
  simp only [EntryNames.eq_def, hkey] at h
  cases value with
  | list items =>
    obtain rfl := Option.some.inj hvalue
    exact h
  | tuple items =>
    obtain rfl := Option.some.inj hvalue
    exact h
  | _ => cases hvalue

end BoundQuery.Filter
