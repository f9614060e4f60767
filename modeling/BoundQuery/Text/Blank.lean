/-! Blank characters, and the words that stand between them. -/
namespace BoundQuery.Text

/-- The characters that separate words. -/
def isBlank (c : Char) : Bool :=
  let n := c.toNat
  (9 ≤ n && n ≤ 13) || (28 ≤ n && n ≤ 32) || n == 0x85 || n == 0xa0 || n == 0x1680 ||
    (0x2000 ≤ n && n ≤ 0x200a) || n == 0x2028 || n == 0x2029 || n == 0x202f || n == 0x205f ||
    n == 0x3000

/-- Blanks apart from the four information separators: what may surround a number. -/
def isMargin (c : Char) : Bool := isBlank c && !(28 ≤ c.toNat && c.toNat ≤ 31)

/-- The text without what satisfies `p` at either end. -/
def strip (p : Char → Bool) (cs : List Char) : List Char :=
  (((cs.dropWhile p).reverse).dropWhile p).reverse

def allBlank (s : String) : Bool := s.toList.all isBlank

/-- The words of a text, given the word being read so far (backwards). -/
def wordsFrom : List Char → List Char → List (List Char)
  | [], [] => []
  | [], word => [word.reverse]
  | c :: cs, word =>
    if isBlank c then
      match word with
      | [] => wordsFrom cs []
      | _ => word.reverse :: wordsFrom cs []
    else wordsFrom cs (c :: word)

def words (s : String) : List String := (wordsFrom s.toList []).map String.ofList

end BoundQuery.Text
