import BoundQuery.Registry.Basic
import BoundQuery.Value.Items

/-! Ready-made handlers. -/
namespace BoundQuery.Handler

/-- Between two bounds, which are the items of the operand. -/
def between : Handler := fun field operand _ params =>
  match operand.items with
  | .ok bounds => (params ++ bounds, .ok (.str (field.text ++ " BETWEEN ? AND ?")))
  | .error e => (params, .error e)

/-- Texts that begin with the operand. -/
def startsWith : Handler := fun field operand _ params =>
  (params ++ [.str (operand.text ++ "%")], .ok (.str (field.text ++ " LIKE ?")))

/-- Half of the operand, which is written into the clause. -/
def half : Handler := fun field operand _ params =>
  (params, .ok (.str (field.text ++ " = " ++ operand.text ++ " / 2")))

/-- Binds the path at which the operator stands. -/
def path : Handler := fun field _ context params =>
  (params ++ [.str context], .ok (.str ("CTX(" ++ field.text ++ ", ?)")))

/-- The same clause always, with nothing bound. -/
def constant (clause : Value) : Handler := fun _ _ _ params => (params, .ok clause)

/-- The same clause always, with the operand bound. -/
def binding (clause : Value) : Handler := fun _ operand _ params =>
  (params ++ [operand], .ok clause)

/-- Binds the operand and then gives up. -/
def failing (message : Value) : Handler := fun _ operand context params =>
  (params ++ [operand], .error (.malformed (.raised message) (.str context)))

end BoundQuery.Handler
