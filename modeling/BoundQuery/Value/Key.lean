import BoundQuery.Value.Basic

/-! Keys of maps. Two keys are the same by what they stand for: a number is the same key
whether it is written as a truth value, a whole number or a floating-point one. What is not a
number, and an object of which nothing is known, is the same only as itself. -/
namespace BoundQuery

inductive Number where
  | whole (n : Int)
  | real (x : Decimal)

namespace Number

def same : Number → Number → Bool
  | whole a, whole b => a == b
  | whole a, real y => y.toInt? == some a
  | real x, whole b => x.toInt? == some b
  | real x, real y => x == y || (x.isZero && y.isZero)

def toDecimal : Number → Decimal
  | whole n => .ofInt n
  | real x => (x.toInt?.map Decimal.ofInt).getD x

def lt : Number → Number → Bool
  | whole a, whole b => a < b
  | a, b => a.toDecimal.lt b.toDecimal

end Number

namespace Value

def number? : Value → Option Number
  | bool b => some (.whole (if b then 1 else 0))
  | int n => some (.whole n)
  | real x => some (.real x)
  | _ => none

def isNumber (v : Value) (n : Int) : Bool :=
  match v.number? with
  | some x => x.same (.whole n)
  | none => false

def sameNumber (v w : Value) : Bool :=
  match v.number?, w.number? with
  | some x, some y => x.same y
  | _, _ => false

mutual

def same : Value → Value → Bool
  | null, w => match w with | null => true | _ => false
  | str a, w => match w with | str b => a == b | _ => false
  | bytes a, w => match w with | bytes b => a == b | _ => false
  | pattern a, w => match w with | pattern b => a == b | _ => false
  | foreign a, w => match w with | foreign b => a.id == b.id | _ => false
  | subquery a, w => match w with | subquery b => a.id == b.id | _ => false
  | tuple as, w => match w with | tuple bs => sameItems as bs | _ => false
  | bool b, w => sameNumber (bool b) w
  | int n, w => sameNumber (int n) w
  | real x, w => sameNumber (real x) w
  | list _, _ => false
  | map _, _ => false
  | record _ _, _ => false

def sameItems : List Value → List Value → Bool
  | [], bs => bs.isEmpty
  | a :: as, bs => match bs with | b :: bs => a.same b && sameItems as bs | [] => false

end

mutual

/-- A value that can be a key: anything but a list, a map, a record, or a tuple with one of these
inside. -/
def isKey : Value → Bool
  | list _ => false
  | map _ => false
  | record _ _ => false
  | tuple items => areKeys items
  | _ => true

def areKeys : List Value → Bool
  | [] => true
  | v :: vs => v.isKey && areKeys vs

end

def isNaN : Value → Bool
  | real (.nan _) => true
  | _ => false

/-- Equality of values: the same, unless it is not a number, which equals nothing. -/
def equals (v w : Value) : Bool := v.same w && !v.isNaN

def bytesLt : List UInt8 → List UInt8 → Bool
  | [], bs => !bs.isEmpty
  | _ :: _, [] => false
  | a :: as, b :: bs => a < b || (a == b && bytesLt as bs)

mutual

/-- Whether a value comes before another, if the two have an order. -/
def before? : Value → Value → Option Bool
  | str a, w => match w with | str b => some (a < b) | _ => none
  | bytes a, w => match w with | bytes b => some (bytesLt a b) | _ => none
  | tuple as, w => match w with | tuple bs => itemsBefore? as bs | _ => none
  | list as, w => match w with | list bs => itemsBefore? as bs | _ => none
  | v, w =>
    match v.number?, w.number? with
    | some x, some y => some (x.lt y)
    | _, _ => none

/-- The first items that differ decide. -/
def itemsBefore? : List Value → List Value → Option Bool
  | [], bs => some !bs.isEmpty
  | a :: as, bs =>
    match bs with
    | [] => some false
    | b :: bs => if a.same b then itemsBefore? as bs else a.before? b

end

def place? (v : Value) : List Value → Option (List Value)
  | [] => some [v]
  | w :: ws => do
    if ← w.before? v then return w :: (← v.place? ws) else return v :: w :: ws

/-- The values in rising order, if each has an order with those it is compared with. -/
def sorted? : List Value → Option (List Value)
  | [] => some []
  | v :: vs => do v.place? (← sorted? vs)

/-- The values without what is the same as an earlier one. -/
def distinct : List Value → List Value
  | [] => []
  | v :: vs => v :: (distinct vs).filter fun w => !v.same w

def isIn (v : Value) (vs : List Value) : Bool := vs.any v.same

end Value

namespace Entries

def keys (es : Entries) : List Value := es.map Prod.fst

def get? (key : Value) : Entries → Option Value
  | [] => none
  | (k, v) :: rest => if k.same key then some v else get? key rest

def has (es : Entries) (key : Value) : Bool := (es.get? key).isSome

/-- Replaces the value of a key that is there, else puts the entry last. -/
def put (key value : Value) : Entries → Entries
  | [] => [(key, value)]
  | (k, v) :: rest => if k.same key then (k, value) :: rest else (k, v) :: put key value rest

def putAll (es more : Entries) : Entries := more.foldl (fun acc e => Entries.put e.1 e.2 acc) es

def ofPairs (pairs : List (Value × Value)) : Entries := putAll [] pairs

def erase (key : Value) (es : Entries) : Entries := es.filter fun e => !e.1.same key

end Entries

namespace Fields

def get? (key : String) (fields : Fields) : Option Value := fields.lookup key

def put (key : String) (value : Value) : Fields → Fields
  | [] => [(key, value)]
  | (k, v) :: rest => if k == key then (k, value) :: rest else (k, v) :: put key value rest

@[simp] theorem get?_put_self (key : String) (value : Value) (fields : Fields) :
    get? key (put key value fields) = some value := by
  induction fields with
  | nil => simp [put, get?]
  | cons f rest ih =>
    obtain ⟨k, v⟩ := f
    by_cases h : k = key
    · subst h
      simp [put, get?]
    · have hk : (key == k) = false := beq_false_of_ne (Ne.symm h)
      rw [put, if_neg (by simp [h]), get?, List.lookup_cons, hk]
      exact ih

end Fields

end BoundQuery
