import BoundQuery.Schema.WholeNumber
import BoundQuery.Value.Key

/-! Reading values as what a model asks for. A reading is generous: bytes pass for the text they
encode, and texts and floating-point numbers for the whole numbers they stand for. A reading
that fails reports all that is wrong, in order. -/
namespace BoundQuery

abbrev Reading (α : Type) := Except (List Issue) α

namespace Reading

def fail {α : Type} (place : List Place) (defect : Defect) : Reading α := .error [⟨place, defect⟩]

/-- Both readings, with the issues of both. -/
def both {α β : Type} : Reading (α → β) → Reading α → Reading β
  | .ok f, .ok a => .ok (f a)
  | .ok _, .error es => .error es
  | .error es, .ok _ => .error es
  | .error es, .error more => .error (es ++ more)

/-- The first reading, if the second has no issues either. -/
def also {α : Type} (reading : Reading α) (check : Reading Unit) : Reading α :=
  both (reading.map fun a _ => a) check

/-- Puts a step in front of the places of all issues. -/
def under {α : Type} (place : Place) : Reading α → Reading α
  | .ok a => .ok a
  | .error es => .error (es.map fun i => { i with place := place :: i.place })

/-- The first alternative that can be read; if there is none, the issues of both. -/
def either {α : Type} : Reading α → Reading α → Reading α
  | .ok a, _ => .ok a
  | .error _, .ok a => .ok a
  | .error es, .error more => .error (es ++ more)

def decoded (bs : List UInt8) : Option String := String.fromUTF8? ⟨bs.toArray⟩

def text : Value → Reading String
  | .str s => .ok s
  | .bytes bs =>
    match decoded bs with
    | some s => .ok s
    | none => fail [] .notUtf8
  | _ => fail [] .notText

def optionalText : Value → Reading (Option String)
  | .null => .ok none
  | v => (text v).map some

/-- Whole numbers below this, on either side of zero, fit into 64 bits. -/
def wordLimit : Nat := 9223372036854775808

/-- The place of a key: a text, a number of at most 64 bits, or else what is shown for it. -/
def keyPlace : Value → Place
  | .bool b => .index (if b then 1 else 0)
  | .int n => if -(wordLimit : Int) ≤ n ∧ n < wordLimit then .index n else .name (toString n)
  | .str s => .name s
  | v => .name v.shown

def fieldsFrom (read : Fields) : Entries → Reading Fields
  | [] => .ok read
  | (key, value) :: rest =>
    match under (keyPlace key) (under (.name "[key]") (text key)) with
    | .ok name => fieldsFrom (Fields.put name value read) rest
    | .error es => both (.error es) (fieldsFrom read rest)

/-- A map with texts for keys. -/
def fields : Value → Reading Fields
  | .map entries => fieldsFrom [] entries
  | _ => fail [] .notMap

def textsFrom (index : Nat) : List Value → Reading (List String)
  | [] => .ok []
  | v :: vs => both ((under (.index index) (text v)).map List.cons) (textsFrom (index + 1) vs)

/-- A list of texts. A tuple passes for a list, and so does a record, of which no field is a
text. -/
def texts : Value → Reading (List String)
  | .list items => textsFrom 0 items
  | .tuple items => textsFrom 0 items
  | .record _ fields => textsFrom 0 (Fields.toPairs fields)
  | _ => fail [] .notList

def integerText (s : String) : Reading Int :=
  match WholeNumber.ofText s with
  | .ok n => .ok n
  | .error defect => fail [] defect

def integer : Value → Reading Int
  | .bool b => .ok (if b then 1 else 0)
  | .int n => .ok n
  | .real x =>
    if !x.isFinite then fail [] .infinite
    else match x.toInt? with
      | none => fail [] .fractional
      | some n => if n.natAbs < wordLimit then .ok n else fail [] .tooLarge
  | .str s => integerText s
  | .bytes bs =>
    match decoded bs with
    | some s => integerText s
    | none => fail [] .notIntegerText
  | _ => fail [] .notInteger

/-- A number of rows. -/
def count (v : Value) : Reading Nat :=
  match integer v with
  | .ok n => if 0 ≤ n then .ok n.toNat else fail [] .negative
  | .error es => .error es

end Reading

/-- A field of a model: the key that it is usually given by, and its other name. -/
structure Slot where
  key : String
  name : String

namespace Slot

/-- The key under which a field is given, with its value. -/
def find? (slot : Slot) (entries : Entries) : Option (String × Value) :=
  match Entries.get? (.str slot.key) entries with
  | some v => some (slot.key, v)
  | none => (Entries.get? (.str slot.name) entries).map fun v => (slot.name, v)

def read {α : Type} (slot : Slot) (entries : Entries) (reading : Value → Reading α)
    (default : Option α) : Reading α :=
  match slot.find? entries, default with
  | some (key, v), _ => Reading.under (.name key) (reading v)
  | none, some a => .ok a
  | none, none => Reading.fail [.name slot.key] .missing

/-- Reports the keys that belong to no field. -/
def leftovers (slots : List Slot) (entries : Entries) : Reading Unit :=
  let used := slots.filterMap fun slot => (slot.find? entries).map Prod.fst
  let issues := entries.filterMap fun (key, _) =>
    match key with
    | .str s => if used.contains s then none else some ⟨[.name s], .unknownField⟩
    | key => some ⟨[Reading.keyPlace key], .unknownKey⟩
  if issues.isEmpty then .ok () else .error issues

end Slot

end BoundQuery
