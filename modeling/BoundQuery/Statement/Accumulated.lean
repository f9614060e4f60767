import BoundQuery.Error
import BoundQuery.Event
import BoundQuery.Text.Blank

/-! Filters given one after the other, all of which have to hold; and the checks that several
statements share. -/
namespace BoundQuery

/-- The non-empty filters given so far. -/
inductive Accumulated where
  | empty
  | single (tree : Entries)
  | several (trees : List Entries)

namespace Accumulated

def add : Accumulated → Entries → Accumulated
  | a, [] => a
  | empty, tree => single tree
  | single first, tree => several [first, tree]
  | several trees, tree => several (trees ++ [tree])

@[simp] theorem add_nil (a : Accumulated) : a.add [] = a := by
  cases a <;> rfl

/-- One filter for all: the only one as it is, several as a conjunction. -/
def toTree : Accumulated → Value
  | empty => .map []
  | single tree => .map tree
  | several trees => .map [(.str "$and", .list (trees.map .map))]

def isEmpty : Accumulated → Bool
  | empty => true
  | _ => false

@[simp] theorem isEmpty_add_cons (a : Accumulated) (e : Value × Value) (es : Entries) :
    (a.add (e :: es)).isEmpty = false := by
  cases a <;> rfl

/-- Adds a filter that is given as a value, on behalf of a kind of statement. -/
def query (kind : StatementKind) (a : Accumulated) : Value → Except Error Accumulated
  | .map tree => .ok (a.add tree)
  | v => .error (.configuration (.filterKind v.kind) (.str kind.name))

end Accumulated

/-- The place of a registry in the catalogue. -/
abbrev RegistryId := Nat

namespace Check

def table (kind : StatementKind) (v : Value) : Except Error String :=
  let refused := .error (.configuration .tableName (.str kind.name))
  match v with
  | .str s => if Text.allBlank s then refused else .ok s
  | _ => refused

def count (kind : StatementKind) (name : String) (v : Value) : Except Error Nat :=
  let refused := .error (.configuration (.count name v) (.str kind.name))
  match v with
  | .int n => if 0 ≤ n then .ok n.toNat else refused
  | _ => refused

end Check

/-- A call on a builder: it may fail, and what it changed before that stays changed. -/
abbrev Change (σ : Type) := EStateM Error σ

end BoundQuery
