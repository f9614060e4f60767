import BoundQuery.Text.Quoted

/-! Search patterns as they are shown. A pattern may begin with groups of option letters, such as
`(?i)`, and with comments, such as `(?#note)`; the options are named beside the source. Once
option `x` is set, blanks and lines after `#` are comments too. -/
namespace BoundQuery.Text

/-- The options that are named, in their order. -/
def patternOptions : List (Char × String) :=
  [('t', "re.TEMPLATE"), ('i', "re.IGNORECASE"), ('m', "re.MULTILINE"), ('s', "re.DOTALL"),
    ('x', "re.VERBOSE"), ('a', "re.ASCII")]

def isPatternOption (c : Char) : Bool := c == 'u' || (patternOptions.lookup c).isSome

/-- The blanks that may stand between the parts of a pattern with option `x`. -/
def isPatternBlank (c : Char) : Bool :=
  c == ' ' || c == '\t' || c == '\n' || c == '\r' || c == '\x0b' || c == '\x0c'

mutual

/-- The letters set so far, with those that the rest of the opening sets. -/
def optionLetters (letters : List Char) : List Char → List Char
  | '(' :: '?' :: '#' :: rest => optionsAfterComment letters rest
  | '(' :: '?' :: rest => optionsOfGroup letters [] rest
  | c :: rest =>
    if letters.contains 'x' && isPatternBlank c then optionLetters letters rest
    else if letters.contains 'x' && c == '#' then optionsAfterLine letters rest
    else letters
  | [] => letters

/-- Takes in a group up to its end; one that holds anything but option letters ends the opening. -/
def optionsOfGroup (letters group : List Char) : List Char → List Char
  | ')' :: rest => optionLetters (letters ++ group) rest
  | c :: rest =>
    if isPatternOption c then optionsOfGroup letters (group ++ [c]) rest else letters
  | [] => letters

/-- A comment ends at the first parenthesis that has no backslash before it. -/
def optionsAfterComment (letters : List Char) : List Char → List Char
  | '\\' :: _ :: rest => optionsAfterComment letters rest
  | ')' :: rest => optionLetters letters rest
  | _ :: rest => optionsAfterComment letters rest
  | [] => letters

/-- A line ends at the first line break that has no backslash before it. -/
def optionsAfterLine (letters : List Char) : List Char → List Char
  | '\\' :: _ :: rest => optionsAfterLine letters rest
  | '\n' :: rest => optionLetters letters rest
  | _ :: rest => optionsAfterLine letters rest
  | [] => letters

end

/-- The names of the options that a pattern sets. -/
def optionNames (source : String) : List String :=
  let letters := optionLetters [] source.toList
  (patternOptions.filter fun o => letters.contains o.1).map Prod.snd

/-- At most two hundred characters of the quoted source are shown. -/
def shownPattern (source : String) : String :=
  let quotedSource := String.ofList ((quoted source).toList.take 200)
  "re.compile(" ++ ", ".intercalate (quotedSource :: optionClause (optionNames source)) ++ ")"
where
  optionClause : List String → List String
    | [] => []
    | names => ["|".intercalate names]

end BoundQuery.Text
