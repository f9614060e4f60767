import BoundQuery.Text.Printable

/-! Quoted text. `quoted` shows a text between quotes with every other character recognisable,
for messages; `literal` writes an SQL string in which a quote is doubled. -/
namespace BoundQuery.Text

def hexDigits (width n : Nat) : List Char :=
  let ds := Nat.toDigits 16 n
  List.replicate (width - ds.length) '0' ++ ds

/-- Double quotes for a text that holds single quotes and no double ones, else single quotes. -/
def quoteMark (cs : List Char) : Char :=
  if cs.contains '\x27' && !cs.contains '"' then '"' else '\x27'

/-- A hidden character by its number, with as many digits as its size needs. -/
def numbered (c : Char) : List Char :=
  if c.toNat < 0x100 then '\\' :: 'x' :: hexDigits 2 c.toNat
  else if c.toNat < 0x10000 then '\\' :: 'u' :: hexDigits 4 c.toNat
  else '\\' :: 'U' :: hexDigits 8 c.toNat

/-- A character as it stands between the quotes `mark`, if `shown` says which ones are visible. -/
def escaped (shown : Char → Bool) (mark c : Char) : List Char :=
  if c == mark || c == '\\' then ['\\', c]
  else if c == '\n' then ['\\', 'n']
  else if c == '\r' then ['\\', 'r']
  else if c == '\t' then ['\\', 't']
  else if shown c then [c]
  else numbered c

def quotedWith (shown : Char → Bool) (cs : List Char) : String :=
  let mark := quoteMark cs
  String.ofList (mark :: (cs.flatMap (escaped shown mark) ++ [mark]))

def quoted (s : String) : String := quotedWith isPrintable s.toList

/-- Bytes are shown as the characters of the same numbers, of which only ASCII is visible. -/
def quotedBytes (bs : List UInt8) : String :=
  "b" ++ quotedWith (fun c => 32 ≤ c.toNat && c.toNat < 127) (bs.map fun b => Char.ofNat b.toNat)

def doubled (mark : Char) : List Char → List Char
  | [] => []
  | c :: cs => if c == mark then mark :: mark :: doubled mark cs else c :: doubled mark cs

/-- An SQL string literal: a quote inside the text is written twice. -/
def literal (s : String) : String :=
  String.ofList ('\x27' :: (doubled '\x27' s.toList ++ ['\x27']))

end BoundQuery.Text
