import BoundQuery.Error
import BoundQuery.Text.Blank

/-! Whole numbers given as text. Beside its digits the text may have blanks at either end, a
sign, zeros in front of the first other digit, single underscores, and a point with zeros after
it. A text that is no number as it stands has each of these taken away on its own; what is left
has to be a number as it is usually written. -/
namespace BoundQuery.WholeNumber

/-- A plus sign says nothing, but no minus sign may follow it. -/
def withoutPlus : List Char → Option (List Char)
  | '+' :: '-' :: _ => none
  | '+' :: cs => some cs
  | cs => some cs

/-- What follows a row of zeros and underscores. The last of these is kept if no number begins
after it. -/
def afterZeros (last : Char) : List Char → Option (List Char)
  | [] => some [last]
  | c :: cs =>
    if c == '0' || c == '_' then afterZeros c cs
    else if c.isDigit || c == '-' then some (c :: cs)
    else if c == '.' then some (last :: c :: cs)
    else none

def withoutZeros : List Char → Option (List Char)
  | [] => none
  | c :: cs =>
    if c == '0' then afterZeros c cs
    else if c.isDigit || c == '-' then some (c :: cs)
    else none

/-- Takes the zeros away after the minus sign, if there is one. -/
def signed : List Char → Option (List Char)
  | '-' :: cs => (withoutZeros cs).map ('-' :: ·)
  | cs => withoutZeros cs

/-- A fraction of zeros says nothing; there has to be one at least. -/
def withoutFraction (cs : List Char) : List Char :=
  match cs.dropWhile (· != '.') with
  | '.' :: '0' :: zeros => if zeros.all (· == '0') then cs.takeWhile (· != '.') else cs
  | _ => cs

/-- Whether two underscores stand side by side. -/
def hasDouble : List Char → Bool
  | '_' :: '_' :: _ => true
  | _ :: cs => hasDouble cs
  | [] => false

/-- Underscores say nothing as long as each stands alone between other characters. -/
def withoutUnderscores (cs : List Char) : List Char :=
  if cs.head? == some '_' || cs.getLast? == some '_' || hasDouble cs then cs
  else cs.filter (· != '_')

/-- The longest number that is read, its minus sign counted. -/
def sizeLimit : Nat := 4300

/-- Digits as they are usually written, after `signs` characters of a sign. Their size is checked
before what follows them. -/
def ofDigits (signs : Nat) (cs : List Char) : Except Defect Nat :=
  let digits := cs.takeWhile Char.isDigit
  if digits.isEmpty || (digits.head? == some '0' && digits != ['0']) then .error .notIntegerText
  else if sizeLimit < signs + digits.length then .error .tooLarge
  else if digits.length < cs.length then .error .notIntegerText
  else .ok (Decimal.number digits)

/-- A number as it is usually written. -/
def plain : List Char → Except Defect Int
  | '-' :: cs => (ofDigits 1 cs).map fun n => -(n : Int)
  | cs => (ofDigits 0 cs).map fun n => (n : Int)

/-- The text without all that a number may have beside its digits and its minus sign. -/
def cleaned (cs : List Char) : Option (List Char) := do
  let cs ← signed (← withoutPlus (Text.strip Text.isMargin cs))
  return withoutUnderscores (withoutFraction cs)

/-- Only a text that starts with too many digits is refused for its size. One that has to be
cleaned first is no number if it is too long then. -/
def ofText (s : String) : Except Defect Int :=
  match plain s.toList with
  | .ok n => .ok n
  | .error .tooLarge => .error .tooLarge
  | .error _ =>
    match (cleaned s.toList).map plain with
    | some (.ok n) => .ok n
    | _ => .error .notIntegerText

end BoundQuery.WholeNumber
