/-! Floating-point numbers, each held as the shortest decimal that stands for it. The digits of
a finite number end in no zero, so a number has one form; the number meant is the double
nearest to that decimal. What is not a number is told from others of its kind by a tag. -/
namespace BoundQuery

inductive Decimal where
  | nan (tag : Nat)
  | infinite (negative : Bool)
  | finite (negative : Bool) (digits : Nat) (exponent : Int)
deriving DecidableEq, Inhabited

namespace Decimal

def sign (negative : Bool) : String := if negative then "-" else ""

def zeros (n : Nat) : List Char := List.replicate n '0'

/-- All digits written out, with a digit on either side of the point. -/
def positional (ds : List Char) (exponent : Int) : List Char :=
  let point := ds.length + exponent
  if point ≤ 0 then '0' :: '.' :: (zeros (-point).toNat ++ ds)
  else if 0 ≤ exponent then ds ++ zeros exponent.toNat ++ ['.', '0']
  else ds.take point.toNat ++ '.' :: ds.drop point.toNat

/-- The power of ten, of two digits at least. -/
def power (e : Int) : List Char :=
  let ds := Nat.toDigits 10 e.natAbs
  'e' :: (if e < 0 then '-' else '+') :: (zeros (2 - ds.length) ++ ds)

def scientific (ds : List Char) (exponent : Int) : List Char :=
  let e := power (ds.length + exponent - 1)
  match ds with
  | [d] => d :: e
  | d :: rest => d :: '.' :: (rest ++ e)
  | [] => e

/-- Numbers from 0.0001 up to 10^16 are written out, the others with a power of ten. -/
def unsigned (digits : Nat) (exponent : Int) : List Char :=
  if digits = 0 then ['0', '.', '0']
  else
    let ds := Nat.toDigits 10 digits
    let point := ds.length + exponent
    if -3 ≤ point ∧ point ≤ 16 then positional ds exponent else scientific ds exponent

def text : Decimal → String
  | nan _ => "nan"
  | infinite negative => sign negative ++ "inf"
  | finite negative digits exponent => sign negative ++ String.ofList (unsigned digits exponent)

def isZero : Decimal → Bool
  | finite _ digits _ => digits == 0
  | _ => false

def isFinite : Decimal → Bool
  | finite _ _ _ => true
  | _ => false

/-- The nearest number with at most 53 binary digits; a tie goes to the even one. -/
def roundBinary (n : Nat) : Nat :=
  let unit := Nat.pow 2 (n.log2 + 1 - 53)
  let q := n / unit
  let r := n % unit
  if unit < 2 * r ∨ (unit = 2 * r ∧ q % 2 = 1) then (q + 1) * unit else q * unit

/-- The whole number meant, if it is one. -/
def toInt? : Decimal → Option Int
  | finite negative digits exponent =>
    if digits = 0 then some 0
    else if 0 ≤ exponent then
      let n : Int := roundBinary (digits * Nat.pow 10 exponent.toNat)
      some (if negative then -n else n)
    else none
  | _ => none

/-- The signed digits of a finite number over the power `10 ^ base`, for `base` at most its exponent. -/
def scaled (base : Int) (negative : Bool) (digits : Nat) (exponent : Int) : Int :=
  let n := Int.ofNat (digits * Nat.pow 10 (exponent - base).toNat)
  if negative then -n else n

def lt : Decimal → Decimal → Bool
  | nan _, _ => false
  | _, nan _ => false
  | infinite a, infinite b => a && !b
  | infinite a, finite _ _ _ => a
  | finite _ _ _, infinite b => !b
  | finite s m e, finite t n f => scaled (min e f) s m e < scaled (min e f) t n f

def ofInt (n : Int) : Decimal := finite (n < 0) n.natAbs 0

/-- Drops at most `fuel` zeros at the end of the digits. -/
def normal : (fuel : Nat) → Bool → Nat → Int → Decimal
  | 0, negative, digits, exponent => finite negative digits exponent
  | fuel + 1, negative, digits, exponent =>
    if digits = 0 then finite negative 0 0
    else if digits % 10 = 0 then normal fuel negative (digits / 10) (exponent + 1)
    else finite negative digits exponent

def number (ds : List Char) : Nat := ds.foldl (fun n c => 10 * n + (c.toNat - '0'.toNat)) 0

def digits? (ds : List Char) : Option Nat :=
  if ds.isEmpty || !ds.all Char.isDigit then none else some (number ds)

def exponent? : List Char → Option Int
  | [] => some 0
  | 'e' :: '-' :: ds => (digits? ds).map fun n => -(n : Int)
  | 'e' :: '+' :: ds => (digits? ds).map fun n => (n : Int)
  | 'e' :: ds => (digits? ds).map fun n => (n : Int)
  | _ => none

def unsigned? (negative : Bool) (cs : List Char) : Option Decimal := do
  let (whole, rest) := cs.span Char.isDigit
  let (fraction, rest) := match rest with
    | '.' :: more => more.span Char.isDigit
    | more => ([], more)
  let e ← exponent? rest
  let n ← digits? (whole ++ fraction)
  return normal (whole ++ fraction).length negative n (e - fraction.length)

def ofText? (s : String) : Option Decimal :=
  match s.toList with
  | ['n', 'a', 'n'] => some (nan 0)
  | ['i', 'n', 'f'] => some (infinite false)
  | ['-', 'i', 'n', 'f'] => some (infinite true)
  | '-' :: cs => unsigned? true cs
  | cs => unsigned? false cs

end Decimal

end BoundQuery
