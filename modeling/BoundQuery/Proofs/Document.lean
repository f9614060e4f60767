import BoundQuery.Value.Json

/-! Values as documents have them: what is written for them, and how they are stored in a column.
They are without sub-queries, or have texts as the keys of all maps; the latter can be written as
JSON. -/
namespace BoundQuery

namespace Json

/-- What stands without quotes. -/
def word? : Value → Option String
  | .null => some "null"
  | .bool true => some "true"
  | .bool false => some "false"
  | .int n => some (toString n)
  | .real x => some (number x)
  | _ => none

def name? : Value → Option String
  | .str s => some s
  | v => word? v

mutual

/-- The JSON text of a value, by its kind. -/
def form? : Value → Option String
  | .list items | .tuple items => (itemForms? items).map fun ts => "[" ++ ",".intercalate ts ++ "]"
  | .map es => (memberForms? es).map fun ts => "\x7b" ++ ",".intercalate ts ++ "\x7d"
  | v => some ((word? v).getD (string v.text))

def itemForms? : List Value → Option (List String)
  | [] => some []
  | v :: vs => (form? v).bind fun t => (itemForms? vs).map fun ts => t :: ts

def memberForms? : List (Value × Value) → Option (List String)
  | [] => some []
  | (key, v) :: es => (name? key).bind fun name => (form? v).bind fun t =>
      (memberForms? es).map fun ts => (string name ++ ":" ++ t) :: ts

end

theorem key_toOption (v : Value) : (key v).toOption = name? v := by
  cases v with
  | bool b => cases b <;> rfl
  | _ => rfl

theorem toOption_bind {α β : Type} (x : Except Error α) (f : α → Except Error β) :
    (x >>= f).toOption = x.toOption.bind fun a => (f a).toOption := by
  cases x <;> rfl

mutual

theorem json_toOption : (v : Value) → v.json.toOption = form? v
  | .list items | .tuple items => by
    rw [Value.json, form?, toOption_bind, jsonItems_toOption, Option.map_eq_bind]
    rfl
  | .map es => by
    rw [Value.json, form?, toOption_bind, jsonEntries_toOption, Option.map_eq_bind]
    rfl
  | .bool b => by cases b <;> rfl
  | .null | .int _ | .real _ | .str _ | .bytes _ | .pattern _ | .foreign _ | .subquery _
  | .record _ _ => rfl

theorem jsonItems_toOption : (vs : List Value) → (jsonItems vs).toOption = itemForms? vs
  | [] => rfl
  | v :: vs => by
    simp only [jsonItems, itemForms?, toOption_bind, json_toOption v, jsonItems_toOption vs,
      Option.map_eq_bind]
    rfl

theorem jsonEntries_toOption :
    (es : List (Value × Value)) → (jsonEntries es).toOption = memberForms? es
  | [] => rfl
  | (key, v) :: es => by
    simp only [jsonEntries, memberForms?, toOption_bind, key_toOption, json_toOption v,
      jsonEntries_toOption es, Option.map_eq_bind]
    rfl

end

theorem json_eq_ok_iff {v : Value} {t : String} : v.json = .ok t ↔ form? v = some t := by
  rw [← json_toOption]
  cases v.json <;> simp [Except.toOption]

end Json

namespace Value

def isComposite : Value → Bool
  | list _ => true
  | tuple _ => true
  | map _ => true
  | _ => false

/-- How a value is written to a column: a list, a tuple or a map as its JSON text, and any other
value as it is. -/
inductive StoredAs (v : Value) : Value → Prop
  | text {t : String} (composite : v.isComposite = true) (form : Json.form? v = some t) :
      StoredAs v (.str t)
  | itself (simple : v.isComposite = false) : StoredAs v v

theorem stored_of_composite {v : Value} (h : v.isComposite = true) :
    v.stored = v.json.map .str := by
  cases v with
  | list items => rfl
  | tuple items => rfl
  | map es => rfl
  | _ => cases h

theorem stored_of_simple {v : Value} (h : v.isComposite = false) : v.stored = .ok v := by
  cases v with
  | list items => cases h
  | tuple items => cases h
  | map es => cases h
  | _ => rfl

theorem stored_eq_ok_iff {v w : Value} : v.stored = .ok w ↔ v.StoredAs w := by
  constructor
  · intro h
    cases hv : v.isComposite with
    | true =>
      rw [stored_of_composite hv] at h
      cases hjson : v.json with
      | ok t =>
        rw [hjson] at h
        obtain rfl := Except.ok.inj h
        exact .text hv (Json.json_eq_ok_iff.mp hjson)
      | error e =>
        rw [hjson] at h
        cases h
    | false =>
      rw [stored_of_simple hv] at h
      obtain rfl := Except.ok.inj h
      exact .itself hv
  · intro h
    cases h with
    | text composite form =>
      rw [stored_of_composite composite, Json.json_eq_ok_iff.mpr form, Except.map]
    | itself simple => exact stored_of_simple simple

end Value

theorem Value.eq_of_sequence? {v : Value} {vs : List Value} (h : v.sequence? = some vs) :
    v = .list vs ∨ v = .tuple vs := by
  cases v with
  | list items => exact .inl (congrArg Value.list (Option.some.inj h))
  | tuple items => exact .inr (congrArg Value.tuple (Option.some.inj h))
  | _ => cases h

namespace Filter

mutual

def SubqueryFree : Value → Prop
  | .subquery _ => False
  | .list items => ItemsFree items
  | .tuple items => ItemsFree items
  | .map es => EntriesFree es
  | _ => True

def ItemsFree : List Value → Prop
  | [] => True
  | v :: vs => SubqueryFree v ∧ ItemsFree vs

def EntriesFree : List (Value × Value) → Prop
  | [] => True
  | (_, value) :: es => SubqueryFree value ∧ EntriesFree es

end

theorem ItemsFree.any_isSubquery {vs : List Value} (h : ItemsFree vs) :
    vs.any Value.isSubquery = false := by
  induction vs with
  | nil => rfl
  | cons v vs ih =>
    obtain ⟨hv, hvs⟩ := h
    rw [List.any_cons, ih hvs, Bool.or_false]
    cases v with
    | subquery ref => exact hv.elim
    | _ => rfl

theorem SubqueryFree.items {v : Value} {vs : List Value} (h : SubqueryFree v)
    (hvs : v.sequence? = some vs) : ItemsFree vs := by
  rcases Value.eq_of_sequence? hvs with rfl | rfl
  · exact h
  · exact h

mutual

def TextKeyed : Value → Prop
  | .list items => ItemsTextKeyed items
  | .tuple items => ItemsTextKeyed items
  | .map es => EntriesTextKeyed es
  | _ => True

def ItemsTextKeyed : List Value → Prop
  | [] => True
  | v :: vs => TextKeyed v ∧ ItemsTextKeyed vs

def EntriesTextKeyed : List (Value × Value) → Prop
  | [] => True
  | (key, value) :: es => (∃ name, key = .str name) ∧ TextKeyed value ∧ EntriesTextKeyed es

end

theorem TextKeyed.items {v : Value} {vs : List Value} (h : TextKeyed v)
    (hvs : v.sequence? = some vs) : ItemsTextKeyed vs := by
  rcases Value.eq_of_sequence? hvs with rfl | rfl
  · exact h
  · exact h

mutual

/-- A value with texts as keys can be written as JSON. -/
theorem TextKeyed.json : (v : Value) → TextKeyed v → ∃ t, v.json = .ok t
  | .list items, h => by
    obtain ⟨ts, hts⟩ := ItemsTextKeyed.json items h
    exact ⟨_, by rw [Value.json, hts]; rfl⟩
  | .tuple items, h => by
    obtain ⟨ts, hts⟩ := ItemsTextKeyed.json items h
    exact ⟨_, by rw [Value.json, hts]; rfl⟩
  | .map es, h => by
    obtain ⟨ts, hts⟩ := EntriesTextKeyed.json es h
    exact ⟨_, by rw [Value.json, hts]; rfl⟩
  | .null, _ => ⟨_, by rw [Value.json]⟩
  | .bool _, _ => ⟨_, by rw [Value.json]⟩
  | .int _, _ => ⟨_, by rw [Value.json]⟩
  | .real _, _ => ⟨_, by rw [Value.json]⟩
  | .str _, _ => ⟨_, by rw [Value.json]⟩
  | .bytes _, _ => ⟨_, by rw [Value.json]⟩
  | .pattern _, _ => ⟨_, by rw [Value.json]⟩
  | .foreign _, _ => ⟨_, by rw [Value.json]⟩
  | .subquery _, _ => ⟨_, by rw [Value.json]⟩
  | .record _ _, _ => ⟨_, by rw [Value.json]⟩

theorem ItemsTextKeyed.json : (vs : List Value) → ItemsTextKeyed vs → ∃ ts, jsonItems vs = .ok ts
  | [], _ => ⟨[], by rw [jsonItems]⟩
  | v :: vs, h => by
    obtain ⟨t, ht⟩ := TextKeyed.json v h.1
    obtain ⟨ts, hts⟩ := ItemsTextKeyed.json vs h.2
    exact ⟨t :: ts, by rw [jsonItems, ht, hts]; rfl⟩

theorem EntriesTextKeyed.json :
    (es : List (Value × Value)) → EntriesTextKeyed es → ∃ ts, jsonEntries es = .ok ts
  | [], _ => ⟨[], by rw [jsonEntries]⟩
  | (key, value) :: es, h => by
    obtain ⟨⟨name, rfl⟩, hvalue, hes⟩ := h
    obtain ⟨t, ht⟩ := TextKeyed.json value hvalue
    obtain ⟨ts, hts⟩ := EntriesTextKeyed.json es hes
    exact ⟨_, by rw [jsonEntries, Json.key, ht, hts]; rfl⟩

end

end Filter

theorem Value.exists_storedAs {v : Value} (h : Filter.TextKeyed v) : ∃ w, v.StoredAs w := by
  cases hv : v.isComposite with
  | true =>
    obtain ⟨t, ht⟩ := Filter.TextKeyed.json v h
    exact ⟨.str t, .text hv (Json.json_eq_ok_iff.mp ht)⟩
  | false => exact ⟨v, .itself hv⟩

end BoundQuery
