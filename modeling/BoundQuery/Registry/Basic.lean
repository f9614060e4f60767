import BoundQuery.Work

/-! Handlers for operators of one's own. A registry is a list that only grows; the handler
registered first for an operator is the one in force. -/
namespace BoundQuery

/-- A handler is given a field, the operand, the path and the values bound so far. It returns
the values, with its own at the end, and its clause. -/
abbrev Handler :=
  (field operand : Value) → (context : String) → (params : List Value) →
    List Value × Except Error Value

structure Registry where
  handlers : List (String × Handler) := []

namespace Registry

def find? (r : Registry) (operator : String) : Option Handler := r.handlers.lookup operator

/-- Registers a handler; what cannot be called is offered as `none` and refused. -/
def register (r : Registry) (operator : String) : Option Handler → Except Error Registry
  | some handler => .ok ⟨r.handlers ++ [(operator, handler)]⟩
  | none => .error (.notCallable operator)

/-- A handler that is there already stays in force, and other operators are not touched. -/
theorem find?_append (r : Registry) (operator name : String) (h : Handler) :
    (Registry.mk (r.handlers ++ [(operator, h)])).find? name =
      (r.find? name).or (if name = operator then some h else none) := by
  simp only [find?, List.lookup_append, List.lookup_cons, List.lookup_nil]
  by_cases hn : name = operator
  · simp [hn]
  · simp [hn, beq_false_of_ne hn]

def size (r : Registry) : Nat := r.handlers.length

def contains (r : Registry) (operator : String) : Bool := (r.find? operator).isSome

/-- The operators that have a handler, each once, in order. -/
def operators (r : Registry) : List String :=
  ((r.handlers.map Prod.fst).eraseDups).mergeSort fun a b => a ≤ b

end Registry

/-- Lets a handler write into a draft. -/
def Handler.run (h : Handler) (field operand : Value) (context : String) : Compile Value := fun d =>
  match h field operand context d.params with
  | (params, .ok clause) => .ok clause { d with params }
  | (params, .error e) => .error e { d with params }

end BoundQuery
