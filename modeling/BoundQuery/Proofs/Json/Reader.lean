import BoundQuery.Value.Json
import BoundQuery.Value.Key
import Mathlib.Data.List.Basic

/-! A reader of JSON. A text is read token by token, blanks between tokens being skipped, by a
machine that keeps the lists and maps that are still open; it gives a value if the whole text is one
value. Maps keep their keys in order, and a number without a fraction and a power is whole. -/
namespace BoundQuery.Json

inductive Token where
  | openList
  | closeList
  | openMap
  | closeMap
  | comma
  | colon
  | scalar (v : Value)

def isBlank (c : Char) : Bool := c == ' ' || c == '\t' || c == '\n' || c == '\r'

def hexValue? (c : Char) : Option Nat :=
  if c.isDigit then some (c.toNat - '0'.toNat)
  else if 'a' ≤ c ∧ c ≤ 'f' then some (c.toNat - 'a'.toNat + 10)
  else if 'A' ≤ c ∧ c ≤ 'F' then some (c.toNat - 'A'.toNat + 10)
  else none

def unit? (a b c d : Char) : Option Nat := do
  return 4096 * (← hexValue? a) + 256 * (← hexValue? b) + 16 * (← hexValue? c) + (← hexValue? d)

def unescaped? : Char → Option Char
  | '"' => some '"'
  | '\\' => some '\\'
  | '/' => some '/'
  | 'b' => some '\x08'
  | 'f' => some '\x0c'
  | 'n' => some '\n'
  | 'r' => some '\r'
  | 't' => some '\t'
  | _ => none

def withCode (code : Nat) (r : List Nat × List Char) : List Nat × List Char := (code :: r.1, r.2)

/-- Reads a string after its opening quote: its codes, and what follows it. -/
def readCodes : List Char → Option (List Nat × List Char)
  | [] => none
  | c :: cs =>
    if c = '"' then some ([], cs)
    else if c = '\\' then
      match cs with
      | [] => none
      | e :: rest =>
        if e = 'u' then
          match rest with
          | h₃ :: h₂ :: h₁ :: h₀ :: rest => do
            return withCode (← unit? h₃ h₂ h₁ h₀) (← readCodes rest)
          | _ => none
        else do return withCode (← unescaped? e).toNat (← readCodes rest)
    else if c.toNat < 32 then none
    else (readCodes cs).map (withCode c.toNat)

def isHigh (code : Nat) : Bool := 0xD800 ≤ code && code < 0xDC00

def isLow (code : Nat) : Bool := 0xDC00 ≤ code && code < 0xE000

/-- The characters that codes stand for, two codes together for a character beyond 16 bits. -/
def characters? : List Nat → Option (List Char)
  | [] => some []
  | code :: rest =>
    if isHigh code then
      match rest with
      | low :: rest =>
        if isLow low then
          (characters? rest).map (Char.ofNat (0x10000 + 0x400 * (code - 0xD800) + (low - 0xDC00)) :: ·)
        else none
      | [] => none
    else if isLow code then none
    else (characters? rest).map (Char.ofNat code :: ·)

def readString (cs : List Char) : Option (Value × List Char) := do
  let (codes, rest) ← readCodes cs
  return (.str (String.ofList (← characters? codes)), rest)

/-- The digits after a mark, of which there is one at least. -/
def someDigits (cs : List Char) : Option (List Char × List Char) :=
  let ds := cs.takeWhile Char.isDigit
  if ds.isEmpty then none else some (ds, cs.dropWhile Char.isDigit)

def readFraction : List Char → Option (List Char × List Char)
  | '.' :: cs => someDigits cs
  | cs => some ([], cs)

/-- The power of ten that a number ends with, if there is one. -/
def readPower : List Char → Option (Option Int × List Char)
  | [] => some (none, [])
  | c :: cs =>
    if c = 'e' ∨ c = 'E' then
      match cs with
      | '-' :: cs => (someDigits cs).map fun (ds, rest) => (some (-(Decimal.number ds : Int)), rest)
      | '+' :: cs => (someDigits cs).map fun (ds, rest) => (some (Decimal.number ds : Int), rest)
      | cs => (someDigits cs).map fun (ds, rest) => (some (Decimal.number ds : Int), rest)
    else some (none, c :: cs)

/-- The digits before a fraction do not begin with a zero, unless it is the only one. -/
def isWhole (ds : List Char) : Bool := ds == ['0'] || (!ds.isEmpty && ds.head? != some '0')

def readUnsigned (negative : Bool) (cs : List Char) : Option (Value × List Char) := do
  let whole := cs.takeWhile Char.isDigit
  if !isWhole whole then none
  else
    let (fraction, rest) ← readFraction (cs.dropWhile Char.isDigit)
    let (power, rest) ← readPower rest
    if fraction.isEmpty && power.isNone then
      let n : Int := Decimal.number whole
      return (.int (if negative then -n else n), rest)
    else
      let ds := whole ++ fraction
      return (.real (Decimal.normal ds.length negative (Decimal.number ds)
        (power.getD 0 - fraction.length)), rest)

def readNumber : List Char → Option (Value × List Char)
  | '-' :: cs => readUnsigned true cs
  | cs => readUnsigned false cs

def readWord (word : String) (v : Value) (cs : List Char) : Option (Value × List Char) :=
  if word.toList.isPrefixOf cs then some (v, cs.drop word.length) else none

def readScalar : List Char → Option (Value × List Char)
  | '"' :: cs => readString cs
  | 'n' :: cs => readWord "ull" .null cs
  | 't' :: cs => readWord "rue" (.bool true) cs
  | 'f' :: cs => readWord "alse" (.bool false) cs
  | cs => readNumber cs

def readToken : List Char → Option (Token × List Char)
  | '[' :: cs => some (.openList, cs)
  | ']' :: cs => some (.closeList, cs)
  | '\x7b' :: cs => some (.openMap, cs)
  | '\x7d' :: cs => some (.closeMap, cs)
  | ',' :: cs => some (.comma, cs)
  | ':' :: cs => some (.colon, cs)
  | cs => (readScalar cs).map fun (v, rest) => (.scalar v, rest)

/-- A list or a map that is still open, with what is in it, and the key for the value to come. -/
inductive Frame where
  | items (done : List Value)
  | members (done : Entries) (name : String)

inductive State where
  | value (frames : List Frame)
  | firstItem (frames : List Frame)
  | firstName (frames : List Frame)
  | nextName (done : Entries) (frames : List Frame)
  | colon (done : Entries) (name : String) (frames : List Frame)
  | after (v : Value) (frames : List Frame)

namespace State

def begin (frames : List Frame) : Token → Option State
  | .scalar v => some (after v frames)
  | .openList => some (firstItem frames)
  | .openMap => some (firstName frames)
  | _ => none

def named (done : Entries) (frames : List Frame) : Token → Option State
  | .scalar (.str s) => some (colon done s frames)
  | _ => none

def step : State → Token → Option State
  | value frames, t => begin frames t
  | firstItem frames, .closeList => some (after (.list []) frames)
  | firstItem frames, t => begin (.items [] :: frames) t
  | firstName frames, .closeMap => some (after (.map []) frames)
  | firstName frames, t => named [] frames t
  | nextName done frames, t => named done frames t
  | colon done name frames, .colon => some (value (.members done name :: frames))
  | after v (.items done :: frames), .comma => some (value (.items (done ++ [v]) :: frames))
  | after v (.items done :: frames), .closeList => some (after (.list (done ++ [v])) frames)
  | after v (.members done name :: frames), .comma =>
    some (nextName (Entries.put (.str name) v done) frames)
  | after v (.members done name :: frames), .closeMap =>
    some (after (.map (Entries.put (.str name) v done)) frames)
  | _, _ => none

def result? : State → Option Value
  | after v [] => some v
  | _ => none

end State

section Shorter

variable {cs rest : List Char}

theorem readCodes_shorter {codes : List Nat} (h : readCodes cs = some (codes, rest)) :
    rest.length < cs.length := by
  fun_induction readCodes cs generalizing codes with
  | case1 => cases h
  | case2 =>
    cases h
    exact Nat.lt_succ_self _
  | case3 => cases h
  | case4 _ h₃ h₂ h₁ h₀ more ih =>
    obtain ⟨code, -, h⟩ := Option.bind_eq_some_iff.mp h
    obtain ⟨r, hr, h⟩ := Option.bind_eq_some_iff.mp h
    cases h
    have hmore := ih hr
    simp only [List.length_cons]
    omega
  | case5 => cases h
  | case6 _ e more he ih =>
    obtain ⟨c, -, h⟩ := Option.bind_eq_some_iff.mp h
    obtain ⟨r, hr, h⟩ := Option.bind_eq_some_iff.mp h
    cases h
    have hmore := ih hr
    simp only [List.length_cons]
    omega
  | case7 => cases h
  | case8 c cs _ _ _ ih =>
    obtain ⟨r, hr, h⟩ := Option.map_eq_some_iff.mp h
    cases h
    exact Nat.lt_succ_of_lt (ih hr)

theorem readString_shorter {v : Value} (h : readString cs = some (v, rest)) :
    rest.length < cs.length := by
  obtain ⟨⟨codes, more⟩, hcodes, h⟩ := Option.bind_eq_some_iff.mp h
  obtain ⟨text, -, h⟩ := Option.bind_eq_some_iff.mp h
  cases h
  exact readCodes_shorter hcodes

theorem digits_length (cs : List Char) : (cs.takeWhile Char.isDigit).length +
    (cs.dropWhile Char.isDigit).length = cs.length := by
  rw [← List.length_append, List.takeWhile_append_dropWhile]

theorem someDigits_shorter {ds : List Char} (h : someDigits cs = some (ds, rest)) :
    rest.length ≤ cs.length := by
  have hlength := digits_length cs
  simp only [someDigits] at h
  split at h
  · cases h
  · cases h
    omega

theorem readFraction_shorter {ds : List Char} (h : readFraction cs = some (ds, rest)) :
    rest.length ≤ cs.length := by
  unfold readFraction at h
  split at h
  · exact Nat.le_succ_of_le (someDigits_shorter h)
  · cases h
    exact Nat.le_refl _

theorem readPower_shorter {power : Option Int} (h : readPower cs = some (power, rest)) :
    rest.length ≤ cs.length := by
  unfold readPower at h
  split at h
  · cases h
    exact Nat.le_refl _
  · split at h
    · split at h
      all_goals
        obtain ⟨r, hr, h⟩ := Option.map_eq_some_iff.mp h
        cases h
        have hlength := someDigits_shorter hr
        simp only [List.length_cons] at hlength ⊢
        omega
    · cases h
      exact Nat.le_refl _

theorem readUnsigned_shorter {negative : Bool} {v : Value}
    (h : readUnsigned negative cs = some (v, rest)) : rest.length < cs.length := by
  have hlength := digits_length cs
  simp only [readUnsigned] at h
  split at h
  · cases h
  · rename_i hwhole
    have hne : 0 < (cs.takeWhile Char.isDigit).length := by
      refine List.length_pos_iff.mpr fun hnil => hwhole ?_
      rw [hnil]
      rfl
    obtain ⟨⟨fraction, more⟩, hfraction, h⟩ := Option.bind_eq_some_iff.mp h
    obtain ⟨⟨power, last⟩, hpower, h⟩ := Option.bind_eq_some_iff.mp h
    have hrest : rest = last := by
      simp only at h
      split at h <;> cases h <;> rfl
    have hshorter := readFraction_shorter hfraction
    have hlast : last.length ≤ more.length := readPower_shorter hpower
    rw [hrest]
    omega

theorem readNumber_shorter {v : Value} (h : readNumber cs = some (v, rest)) :
    rest.length < cs.length := by
  unfold readNumber at h
  split at h
  · exact Nat.lt_succ_of_lt (readUnsigned_shorter h)
  · exact readUnsigned_shorter h

theorem readWord_shorter {word : String} {v w : Value} (h : readWord word v cs = some (w, rest)) :
    rest.length ≤ cs.length := by
  unfold readWord at h
  split at h
  · cases h
    rw [List.length_drop]
    exact Nat.sub_le _ _
  · cases h

theorem readScalar_shorter {v : Value} (h : readScalar cs = some (v, rest)) :
    rest.length < cs.length := by
  unfold readScalar at h
  split at h
  · exact Nat.lt_succ_of_lt (readString_shorter h)
  · exact Nat.lt_succ_of_le (readWord_shorter h)
  · exact Nat.lt_succ_of_le (readWord_shorter h)
  · exact Nat.lt_succ_of_le (readWord_shorter h)
  · exact readNumber_shorter h

theorem readToken_shorter {t : Token} (h : readToken cs = some (t, rest)) :
    rest.length < cs.length := by
  unfold readToken at h
  split at h
  case h_7 =>
    obtain ⟨r, hr, h⟩ := Option.map_eq_some_iff.mp h
    cases h
    exact readScalar_shorter hr
  all_goals
    cases h
    exact Nat.lt_succ_self _

end Shorter

def reads (state : State) (cs : List Char) : Option Value :=
  match _h : readToken cs with
  | some (t, rest) =>
    match state.step t with
    | some state => reads state rest
    | none => none
  | none =>
    match cs with
    | [] => state.result?
    | c :: cs => if isBlank c then reads state cs else none
termination_by cs.length
decreasing_by
  · exact readToken_shorter _h
  · exact Nat.lt_succ_self _

def read? (text : String) : Option Value := reads (.value []) text.toList

end BoundQuery.Json
