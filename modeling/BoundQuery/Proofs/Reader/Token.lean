import BoundQuery.Proofs.Fragment

/-! Conditions as tokens. Characters of one class that stand together are one lexeme; each
placeholder takes the next value, and all values are taken. -/
namespace BoundQuery.Reader

inductive Keyword where
  | and
  | or
  | not
  | within
  | is
  | null
  | regexp
  | like
deriving DecidableEq

namespace Keyword

def text : Keyword → String
  | and => "AND"
  | or => "OR"
  | not => "NOT"
  | within => "IN"
  | is => "IS"
  | null => "NULL"
  | regexp => "REGEXP"
  | like => "LIKE"

/-- Keywords are read in upper case and in lower case. -/
def ofWord? (cs : List Char) : Option Keyword :=
  [and, or, not, within, is, null, regexp, like].find? fun k => k.text.toList = cs.map Char.toUpper

end Keyword

inductive Lexeme where
  | word (cs : List Char)
  | symbol (cs : List Char)
  | blank
  | placeholder
  | opening
  | closing
  | comma
  | unknown

/-- Letters, digits, underscores and dots; beyond ASCII, every character. -/
def isWord (c : Char) : Bool := c.isAlphanum || c == '_' || c == '.' || 127 < c.toNat

def isSymbol (c : Char) : Bool := c == '=' || c == '<' || c == '>'

def Lexeme.ofChar : Char → Lexeme
  | ' ' => blank
  | '?' => placeholder
  | '(' => opening
  | ')' => closing
  | ',' => comma
  | _ => unknown

def Lexeme.start (c : Char) : Lexeme :=
  if isWord c then word [c] else if isSymbol c then symbol [c] else ofChar c

/-- The lexeme with one more character in front, if it is of the same class. -/
def Lexeme.extend? (c : Char) : Lexeme → Option Lexeme
  | word cs => if isWord c then some (word (c :: cs)) else none
  | symbol cs => if isSymbol c then some (symbol (c :: cs)) else none
  | _ => none

def glue (c : Char) : List Lexeme → List Lexeme
  | [] => [.start c]
  | l :: ls =>
    match l.extend? c with
    | some l' => l' :: ls
    | none => .start c :: l :: ls

def lexemes (cs : List Char) : List Lexeme := cs.foldr glue []

inductive Token where
  | keyword (k : Keyword)
  | name (s : String)
  | symbol (s : String)
  | value (v : Value)
  | opening
  | closing
  | comma

def Token.ofWord (cs : List Char) : Token :=
  match Keyword.ofWord? cs with
  | some k => keyword k
  | none => name (String.ofList cs)

def Lexeme.tokens? : Lexeme → List Value → Option (List Token × List Value)
  | word cs, vs => some ([.ofWord cs], vs)
  | symbol cs, vs => some ([.symbol (String.ofList cs)], vs)
  | blank, vs => some ([], vs)
  | placeholder, v :: vs => some ([.value v], vs)
  | placeholder, [] => none
  | opening, vs => some ([.opening], vs)
  | closing, vs => some ([.closing], vs)
  | comma, vs => some ([.comma], vs)
  | unknown, _ => none

def tokens : List Lexeme → List Value → Option (List Token)
  | [], [] => some []
  | [], _ :: _ => none
  | l :: ls, vs => do
    let (ts, rest) ← l.tokens? vs
    return ts ++ (← tokens ls rest)

/-- A character that stands for itself, beside whatever it stands. -/
def separates (c : Char) : Bool := !isWord c && !isSymbol c

theorem Lexeme.extend?_ofChar (c d : Char) : (Lexeme.ofChar d).extend? c = none := by
  unfold Lexeme.ofChar
  split <;> rfl

theorem Lexeme.extend?_of_separates {d : Char} (hd : separates d = true) (l : Lexeme) :
    l.extend? d = none := by
  cases l <;> simp_all [separates, Lexeme.extend?]

theorem glue_append (c d : Char) (ls rest : List Lexeme) :
    glue c (ls ++ .ofChar d :: rest) = glue c ls ++ .ofChar d :: rest := by
  cases ls with
  | nil => simp only [glue, List.nil_append, Lexeme.extend?_ofChar, List.singleton_append]
  | cons l ls =>
    simp only [glue, List.cons_append]
    cases l.extend? c <;> rfl

theorem glue_of_separates {d : Char} (hd : separates d = true) (ls : List Lexeme) :
    glue d ls = .ofChar d :: ls := by
  have hstart : Lexeme.start d = .ofChar d := by simp_all [separates, Lexeme.start]
  cases ls with
  | nil => rw [glue, hstart]
  | cons l ls => simp only [glue, Lexeme.extend?_of_separates hd, hstart]

/-- A text is cut at any character that stands for itself. -/
theorem lexemes_append_cons (cs : List Char) {d : Char} (hd : separates d = true) (ds : List Char) :
    lexemes (cs ++ d :: ds) = lexemes cs ++ .ofChar d :: lexemes ds := by
  induction cs with
  | nil => exact glue_of_separates hd (lexemes ds)
  | cons c cs ih =>
    have hcons : lexemes ((c :: cs) ++ d :: ds) = glue c (lexemes (cs ++ d :: ds)) := rfl
    rw [hcons, ih, glue_append]
    rfl

/-- Texts that can be put together without making one lexeme of two. -/
def Apart (s t : String) : Prop :=
  s.toList.getLast?.all separates = true ∨ t.toList.head?.all separates = true

theorem lexemes_append {s t : String} (h : Apart s t) :
    lexemes (s ++ t).toList = lexemes s.toList ++ lexemes t.toList := by
  rw [String.toList_append]
  rcases h with h | h
  · rcases List.eq_nil_or_concat s.toList with hs | ⟨cs, d, hs⟩
    · rw [hs]
      rfl
    · have hd : separates d = true := by simpa [hs] using h
      rw [hs, List.concat_eq_append, List.append_assoc, List.singleton_append,
        lexemes_append_cons cs hd, lexemes_append_cons cs hd, List.append_assoc]
      rfl
  · cases ht : t.toList with
    | nil => simp [lexemes]
    | cons d ds =>
      have hd : separates d = true := by simpa [ht] using h
      have hcons : lexemes (d :: ds) = .ofChar d :: lexemes ds := glue_of_separates hd _
      rw [lexemes_append_cons _ hd, hcons]

theorem lexemes_word {cs : List Char} (hne : cs ≠ []) (h : ∀ c ∈ cs, isWord c = true) :
    lexemes cs = [.word cs] := by
  induction cs with
  | nil => exact absurd rfl hne
  | cons c cs ih =>
    have hc : isWord c = true := h c List.mem_cons_self
    have hcons : lexemes (c :: cs) = glue c (lexemes cs) := rfl
    cases cs with
    | nil => simp [lexemes, glue, Lexeme.start, hc]
    | cons d ds =>
      rw [hcons, ih (List.cons_ne_nil _ _) fun x hx => h x (List.mem_cons_of_mem _ hx)]
      simp [glue, Lexeme.extend?, hc]

theorem Lexeme.tokens?_append {l : Lexeme} {vs rest : List Value} {ts : List Token}
    (h : l.tokens? vs = some (ts, rest)) (ws : List Value) :
    l.tokens? (vs ++ ws) = some (ts, rest ++ ws) := by
  cases l with
  | placeholder =>
    cases vs with
    | nil => cases h
    | cons v vs =>
      cases h
      rfl
  | unknown => cases h
  | _ =>
    cases h
    rfl

theorem tokens_append {ls : List Lexeme} {vs : List Value} {ts : List Token}
    (h : tokens ls vs = some ts) {ls' : List Lexeme} {vs' : List Value} {ts' : List Token}
    (h' : tokens ls' vs' = some ts') : tokens (ls ++ ls') (vs ++ vs') = some (ts ++ ts') := by
  induction ls generalizing vs ts with
  | nil =>
    cases vs with
    | nil =>
      obtain rfl := Option.some.inj h
      exact h'
    | cons v vs => cases h
  | cons l ls ih =>
    simp only [tokens, Option.bind_eq_bind, Option.bind_eq_some_iff, Prod.exists] at h
    obtain ⟨first, rest, hfirst, more, hmore, hts⟩ := h
    obtain rfl := Option.some.inj hts
    simp [tokens, Lexeme.tokens?_append hfirst, ih hmore]

def Scans (s : String) (vs : List Value) (ts : List Token) : Prop :=
  tokens (lexemes s.toList) vs = some ts

theorem Scans.append {s t : String} {vs ws : List Value} {ts us : List Token} (hs : Scans s vs ts)
    (ht : Scans t ws us) (h : Apart s t) : Scans (s ++ t) (vs ++ ws) (ts ++ us) := by
  rw [Scans, lexemes_append h, tokens_append hs ht]

theorem scans_around {fs : Fragments} {ts before after : List Token} {b a : String}
    (h : Scans fs.sql fs.params ts) (hb : Scans b [] before) (ha : Scans a [] after)
    (hlast : b.toList.getLast?.all separates = true)
    (hfirst : a.toList.head?.all separates = true) :
    Scans (Fragments.around b fs a).sql (Fragments.around b fs a).params (before ++ ts ++ after) := by
  have hall := (hb.append h (.inl hlast)).append ha (.inr hfirst)
  simpa using hall

/-- A separator begins and ends with characters that stand for themselves. -/
theorem scans_joined_cons {fs gs : Fragments} {rows : List Fragments} {ts us between : List Token}
    {separator : String} (hfs : Scans fs.sql fs.params ts)
    (hrest : Scans (Fragments.joined separator (gs :: rows)).sql
      (Fragments.joined separator (gs :: rows)).params us)
    (hs : Scans separator [] between) (hlast : separator.toList.getLast?.all separates = true)
    (hfirst : separator.toList.head?.any separates = true) :
    Scans (Fragments.joined separator (fs :: gs :: rows)).sql
      (Fragments.joined separator (fs :: gs :: rows)).params (ts ++ between ++ us) := by
  have hstart : ∀ t, (separator ++ t).toList.head?.all separates = true := by
    intro t
    cases hc : separator.toList <;> simp_all
  have hall := hfs.append (hs.append hrest (.inl hlast)) (.inr (hstart _))
  simpa [Fragments.joined, Fragment.sql, Fragment.params, String.append_assoc] using hall

/-- A name that is neither a keyword nor made of anything but letters, digits, underscores and
dots. -/
structure PlainName (s : String) : Prop where
  nonempty : s.toList ≠ []
  word : s.toList.all isWord = true
  free : Keyword.ofWord? s.toList = none

instance (s : String) : Decidable (PlainName s) :=
  decidable_of_iff (s.toList ≠ [] ∧ s.toList.all isWord = true ∧ Keyword.ofWord? s.toList = none)
    ⟨fun h => ⟨h.1, h.2.1, h.2.2⟩, fun h => ⟨h.nonempty, h.word, h.free⟩⟩

theorem PlainName.scans {s : String} (h : PlainName s) : Scans s [] [.name s] := by
  rw [Scans, lexemes_word h.nonempty (List.all_eq_true.mp h.word)]
  simp [tokens, Lexeme.tokens?, Token.ofWord, h.free]

end BoundQuery.Reader
