import BoundQuery.Text.Quoted
import BoundQuery.Value.Show

/-! The pieces of SQL that depend on the database. -/
namespace BoundQuery.Dialect

def alwaysTrue : String := "1=1"

def alwaysFalse : String := "1=0"

/-- The row count that stands for "no limit": an offset needs a limit beside it. -/
def unbounded : Nat := 18446744073709551615

def jsonLength (field : String) : String := "JSON_LENGTH(" ++ field ++ ") = ?"

def jsonContains (field : String) : String := "JSON_CONTAINS(" ++ field ++ ", ?)"

def regexMatch (field : String) : String := field ++ " REGEXP ?"

def likeMatch (field : String) : String := field ++ " LIKE ?"

/-- What happens to the given columns when a row is there already. -/
def upsert (columns : List Value) : String :=
  "ON DUPLICATE KEY UPDATE " ++
    ", ".intercalate (columns.map fun c => c.text ++ " = VALUES(" ++ c.text ++ ")")

def literal (v : Value) : String := Text.literal v.text

/-- The rows to take and to leave out, each given by its text. -/
def pagingText : (limit offset : Option String) → String
  | some limit, some offset => "LIMIT " ++ limit ++ " OFFSET " ++ offset
  | some limit, none => "LIMIT " ++ limit
  | none, some offset => "LIMIT " ++ toString unbounded ++ " OFFSET " ++ offset
  | none, none => ""

def paging (limit offset : Option Nat) : String :=
  pagingText (limit.map fun n => toString n) (offset.map fun n => toString n)

/-- A list of `n` placeholders. -/
def placeholders (n : Nat) : String := ", ".intercalate (List.replicate n "?")

@[simp] theorem placeholders_zero : placeholders 0 = "" := rfl

@[simp] theorem placeholders_one : placeholders 1 = "?" := rfl

theorem placeholders_succ_succ (n : Nat) :
    placeholders (n + 2) = "?, " ++ placeholders (n + 1) := by
  simp only [placeholders, List.replicate_succ, String.intercalate_cons_cons]
  rfl

end BoundQuery.Dialect
