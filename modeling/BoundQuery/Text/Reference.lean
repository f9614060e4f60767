/-! Names marked with the sign `$`. The mark tells operators from field names, and a reference
to a field from a plain text. -/
namespace BoundQuery.Text

/-- What follows the mark, if the text carries it. -/
def afterMark? (s : String) : Option String :=
  match s.toList with
  | '$' :: name => some (String.ofList name)
  | _ => none

@[simp] theorem afterMark?_mark (s : String) : afterMark? ("$" ++ s) = some s := by
  simp [afterMark?]

def isMarked (s : String) : Bool := (afterMark? s).isSome

/-- The text cut at its first dot: what stands before it and what stands after it. -/
def splitAtDot (s : String) : String × String :=
  let (head, tail) := s.toList.span (· != '.')
  (String.ofList head, String.ofList (tail.drop 1))

/-- The text with each dot written as an underscore. -/
def underscored (s : String) : String :=
  String.ofList (s.toList.map fun c => if c == '.' then '_' else c)

end BoundQuery.Text
