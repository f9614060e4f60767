import Mathlib.Data.List.Nodup
import Mathlib.Data.List.Sort
import BoundQuery.Proofs.Document
import BoundQuery.Value.Key

/-! Maps with texts for keys. On texts the order and the sameness of keys are those of texts, so
that looking up, sorting and leaving out repetitions are what they are for lists of texts. -/
namespace BoundQuery

structure TextMap where
  fields : Fields
  distinct : (fields.map Prod.fst).Nodup

namespace Value

/-- The same as a text is only that text. -/
theorem same_str_iff {v : Value} {name : String} : v.same (.str name) ↔ v = .str name := by
  cases v with
  | str s => simp [same]
  | _ => simp [same, sameNumber, number?]

theorem str_same_iff {name : String} {v : Value} : (Value.str name).same v ↔ v = .str name := by
  cases v with
  | str s =>
    rw [Value.str.injEq]
    exact beq_iff_eq.trans eq_comm
  | _ => simp [same]

theorem isIn_map_str_iff {v : Value} {names : List String} :
    v.isIn (names.map .str) ↔ ∃ name ∈ names, v = .str name := by
  simp only [isIn, List.any_map, List.any_eq_true, Function.comp_apply, same_str_iff]

theorem place?_map_str (name : String) (names : List String) :
    (Value.str name).place? (names.map .str) =
      some ((names.orderedInsert (· ≤ ·) name).map .str) := by
  induction names with
  | nil => rfl
  | cons first rest ih =>
    simp only [List.map_cons, place?, before?, ih, List.orderedInsert]
    by_cases hlt : first < name
    · have hnot : ¬ name ≤ first := String.not_le.mpr hlt
      simp [hlt, hnot]
    · have hle : name ≤ first := String.not_lt.mp hlt
      simp [hlt, hle]

theorem sorted?_map_str (names : List String) :
    sorted? (names.map .str) = some ((names.insertionSort (· ≤ ·)).map .str) := by
  induction names with
  | nil => rfl
  | cons name rest ih =>
    simp only [List.map_cons, sorted?, ih, List.insertionSort_cons]
    exact place?_map_str name _

/-- What is left out of a list may be left out before repetitions are, or after. -/
theorem eraseDups_filter (p : String → Bool) :
    (names : List String) → (names.filter p).eraseDups = names.eraseDups.filter p
  | [] => rfl
  | name :: rest => by
    have hrest := eraseDups_filter p (rest.filter fun other => !other == name)
    rw [List.eraseDups_cons]
    by_cases hp : p name
    · rw [List.filter_cons_of_pos hp, List.filter_cons_of_pos hp, List.eraseDups_cons, ← hrest,
        List.filter_comm]
    · have hfilter : (rest.filter fun other => !other == name).filter p = rest.filter p := by
        rw [List.filter_filter]
        refine List.filter_congr fun other _ => ?_
        by_cases hother : other = name
        · simp [hother, hp]
        · simp [hother]
      rw [List.filter_cons_of_neg hp, List.filter_cons_of_neg hp, ← hrest, hfilter]
termination_by names => names.length
decreasing_by exact Nat.lt_succ_of_le (List.length_filter_le _ rest)

theorem eraseDups_nodup : (names : List String) → names.eraseDups.Nodup
  | [] => .nil
  | name :: rest => by
    have hrest := eraseDups_nodup (rest.filter fun other => !other == name)
    rw [List.eraseDups_cons]
    exact List.nodup_cons.mpr ⟨by simp [List.mem_eraseDups], hrest⟩
termination_by names => names.length
decreasing_by exact Nat.lt_succ_of_le (List.length_filter_le _ rest)

theorem distinct_map_str (names : List String) :
    distinct (names.map .str) = names.eraseDups.map .str := by
  induction names with
  | nil => rfl
  | cons name rest ih =>
    have hsame : ((fun v : Value => !(Value.str name).same v) ∘ Value.str) =
        fun other => !other == name := by
      funext other
      simp [same, Bool.beq_comm]
    rw [List.map_cons, distinct, ih, List.filter_map, hsame, List.eraseDups_cons, eraseDups_filter,
      List.map_cons]

end Value

namespace TextMap

variable (m : TextMap) {m' : TextMap} {name : String}

def entries : Entries := m.fields.toEntries

def names : List String := m.fields.map Prod.fst

def get? (name : String) : Option Value := m.fields.get? name

def SameNames (m' : TextMap) : Prop := ∀ name, name ∈ m.names ↔ name ∈ m'.names

def Reorders (m' : TextMap) : Prop := m.fields.Perm m'.fields

def TextKeyed : Prop := ∀ f ∈ m.fields, Filter.TextKeyed f.2

@[simp] theorem keys_entries : Entries.keys m.entries = m.names.map .str := by
  simp [Entries.keys, entries, Fields.toEntries, names]

@[simp] theorem get?_entries (name : String) : Entries.get? (.str name) m.entries = m.get? name := by
  unfold entries get?
  induction m.fields with
  | nil => rfl
  | cons f rest ih =>
    obtain ⟨key, v⟩ := f
    have hcons : Fields.toEntries ((key, v) :: rest) = (.str key, v) :: Fields.toEntries rest := rfl
    rw [hcons, Entries.get?, ih, Fields.get?, Fields.get?, List.lookup_cons]
    by_cases hkey : key = name
    · simp [hkey, Value.same]
    · have hne : (name == key) = false := beq_false_of_ne (Ne.symm hkey)
      simp [hkey, hne, Value.same]

variable {m}

theorem get?_eq_some_iff {v : Value} : m.get? name = some v ↔ (name, v) ∈ m.fields := by
  obtain ⟨fields, hdistinct⟩ := m
  show Fields.get? name fields = some v ↔ _
  induction fields with
  | nil => simp [Fields.get?]
  | cons f rest ih =>
    obtain ⟨key, w⟩ := f
    obtain ⟨hkey, hrest⟩ := List.nodup_cons.mp hdistinct
    rw [Fields.get?, List.lookup_cons, List.mem_cons]
    by_cases hname : name = key
    · subst hname
      have hnot : (name, v) ∉ rest := fun hmem => hkey (List.mem_map.mpr ⟨_, hmem, rfl⟩)
      simp [hnot, eq_comm]
    · rw [beq_false_of_ne hname]
      simp only [Prod.mk.injEq, hname, false_and, false_or]
      exact ih hrest

theorem isSome_get?_iff : (m.get? name).isSome ↔ name ∈ m.names := by
  simp only [Option.isSome_iff_exists, get?_eq_some_iff, names, List.mem_map]
  constructor
  · rintro ⟨v, hv⟩
    exact ⟨(name, v), hv, rfl⟩
  · rintro ⟨⟨key, v⟩, hv, rfl⟩
    exact ⟨v, hv⟩

theorem TextKeyed.getD (h : m.TextKeyed) (name : String) :
    Filter.TextKeyed ((m.get? name).getD .null) := by
  cases hget : m.get? name with
  | none => trivial
  | some v => exact h (name, v) (get?_eq_some_iff.mp hget)

theorem Reorders.get?_eq (h : m.Reorders m') (name : String) : m.get? name = m'.get? name := by
  refine Option.ext fun v => ?_
  rw [get?_eq_some_iff, get?_eq_some_iff, h.mem_iff]

theorem Reorders.names_perm (h : m.Reorders m') : m.names.Perm m'.names := h.map _

end TextMap

end BoundQuery
