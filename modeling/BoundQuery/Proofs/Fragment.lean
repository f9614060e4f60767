import BoundQuery.Dialect
import BoundQuery.Event

/-! SQL in fragments: text, the placeholder of a value, or a statement written in whole. A row of
fragments has the text and the values of its fragments one after the other. -/
namespace BoundQuery

inductive Fragment where
  | text (s : String)
  | value (v : Value)
  | whole (s : Statement)

abbrev Fragments := List Fragment

namespace Fragment

def sql : Fragment → String
  | text s => s
  | value _ => "?"
  | whole s => s.sql

def params : Fragment → List Value
  | text _ => []
  | value v => [v]
  | whole s => s.params

end Fragment

namespace Fragments

def sql (fs : Fragments) : String := String.join (fs.map Fragment.sql)

def params (fs : Fragments) : List Value := fs.flatMap Fragment.params

def around (before : String) (fs : Fragments) (after : String) : Fragments :=
  .text before :: (fs ++ [.text after])

/-- Rows of fragments with a text between each and the next. -/
def joined (separator : String) : List Fragments → Fragments
  | [] => []
  | [fs] => fs
  | fs :: next :: rest => fs ++ .text separator :: joined separator (next :: rest)

def texts (ss : List String) : List Fragments := ss.map fun s => [.text s]

def values (vs : List Value) : List Fragments := vs.map fun v => [.value v]

variable (fs gs : Fragments) (rows : List Fragments)

@[simp] theorem sql_nil : sql [] = "" := rfl

@[simp] theorem sql_cons (f : Fragment) : sql (f :: fs) = f.sql ++ fs.sql := by
  simp [sql, String.join_cons]

@[simp] theorem sql_append : sql (fs ++ gs) = fs.sql ++ gs.sql := by
  induction fs with
  | nil => simp
  | cons f fs ih => simp [ih, String.append_assoc]

@[simp] theorem params_nil : params [] = [] := rfl

@[simp] theorem params_cons (f : Fragment) : params (f :: fs) = f.params ++ fs.params := rfl

@[simp] theorem params_append : params (fs ++ gs) = fs.params ++ gs.params := by
  simp [params]

@[simp] theorem sql_around (before after : String) :
    (around before fs after).sql = before ++ fs.sql ++ after := by
  simp [around, Fragment.sql, String.append_assoc]

@[simp] theorem params_around (before after : String) :
    (around before fs after).params = fs.params := by
  simp [around, Fragment.params]

@[simp] theorem sql_joined (separator : String) :
    (joined separator rows).sql = separator.intercalate (rows.map sql) := by
  fun_induction joined separator rows with
  | case1 => rfl
  | case2 fs => simp
  | case3 fs next rest ih =>
    rw [List.map_cons, List.map_cons, String.intercalate_cons_cons, ← List.map_cons, ← ih]
    simp [Fragment.sql, String.append_assoc]

@[simp] theorem params_joined (separator : String) :
    (joined separator rows).params = rows.flatMap params := by
  fun_induction joined separator rows with
  | case1 => rfl
  | case2 fs => simp
  | case3 fs next rest ih => simp [Fragment.params, ih]

@[simp] theorem map_sql_texts (ss : List String) : (texts ss).map sql = ss := by
  induction ss with
  | nil => rfl
  | cons s ss ih => simpa [texts, Fragment.sql] using ih

@[simp] theorem flatMap_params_texts (ss : List String) : (texts ss).flatMap params = [] := by
  simp [texts, Fragment.params]

@[simp] theorem map_sql_values (vs : List Value) :
    (values vs).map sql = List.replicate vs.length "?" := by
  induction vs with
  | nil => rfl
  | cons v vs ih => simpa [values, Fragment.sql, List.replicate_succ] using ih

@[simp] theorem flatMap_params_values (vs : List Value) : (values vs).flatMap params = vs := by
  induction vs with
  | nil => rfl
  | cons v vs ih => simpa [values, Fragment.params] using ih

end Fragments

end BoundQuery
