import BoundQuery.Proofs.Compiled

/-! String literals, as a reader of SQL takes them. A doubled quote stands for a quote, and any
other quote ends the literal. Whether a backslash changes the character after it depends on the
database. Where it does, a literal is read back as the text it was written for exactly if each
backslash of the text stands before a character that leaves it as it is. -/
namespace BoundQuery

namespace Text

/-- The character that an escape stands for: a control character for some, else itself. -/
def escapeCode (c : Char) : Char :=
  if c = '0' then '\x00'
  else if c = 'b' then '\x08'
  else if c = 'n' then '\n'
  else if c = 'r' then '\r'
  else if c = 't' then '\t'
  else if c = 'Z' then '\x1a'
  else c

/-- The signs of a pattern keep their backslash, which the pattern has its own use for. -/
def keepsBackslash (c : Char) : Bool := c == '%' || c == '_'

/-- What a backslash and the character after it stand for. -/
def unescaped (c : Char) : List Char :=
  if keepsBackslash c then ['\\', c] else [escapeCode c]

def prepend (cs : List Char) (r : List Char × List Char) : List Char × List Char := (cs ++ r.1, r.2)

/-- Reads a literal after its opening quote: what it stands for, and what follows it. -/
def readBody (escapes : Bool) : List Char → Option (List Char × List Char)
  | [] => none
  | '\x27' :: '\x27' :: rest => (readBody escapes rest).map (prepend ['\x27'])
  | '\x27' :: rest => some ([], rest)
  | '\\' :: c :: rest =>
    if escapes then (readBody escapes rest).map (prepend (unescaped c))
    else (readBody escapes (c :: rest)).map (prepend ['\\'])
  | c :: rest => (readBody escapes rest).map (prepend [c])

def readLiteral? (escapes : Bool) : List Char → Option (List Char × List Char)
  | '\x27' :: rest => readBody escapes rest
  | _ => none

/-- Every backslash stands before a character that keeps it. -/
def BackslashesKept (cs : List Char) : Prop :=
  ∀ before after, cs = before ++ '\\' :: after → after.head?.any keepsBackslash

theorem backslashesKept_nil : BackslashesKept [] := by
  intro before after h
  cases before <;> cases h

theorem backslashesKept_cons {c : Char} {cs : List Char} :
    BackslashesKept (c :: cs) ↔
      (c = '\\' → cs.head?.any keepsBackslash) ∧ BackslashesKept cs := by
  constructor
  · intro h
    refine ⟨?_, ?_⟩
    · intro hc
      exact h [] cs (by rw [hc]; rfl)
    · intro before after hcs
      exact h (c :: before) after (by rw [hcs]; rfl)
  · intro h before after hcs
    cases before with
    | nil =>
      have hhead := List.cons.inj hcs
      rw [← hhead.2]
      exact h.1 hhead.1
    | cons b before => exact h.2 before after (List.cons.inj hcs).2

theorem map_prepend_eq_some {read : Option (List Char × List Char)} {cs out rest : List Char} :
    read.map (prepend cs) = some (out, rest) ↔
      ∃ tail, read = some (tail, rest) ∧ cs ++ tail = out := by
  cases read with
  | none => simp
  | some r =>
    constructor
    · intro h
      have hr := Prod.mk.inj (Option.some.inj h)
      exact ⟨r.1, by rw [← hr.2], hr.1⟩
    · intro ⟨tail, hr, hout⟩
      rw [hr, ← hout]
      rfl

theorem map_prepend_singleton_iff {read : Option (List Char × List Char)} {c : Char}
    {cs rest : List Char} :
    read.map (prepend [c]) = some (c :: cs, rest) ↔ read = some (cs, rest) := by
  rw [map_prepend_eq_some]
  simp

section Reading

variable {escapes : Bool}

theorem readBody_close {rest : List Char} (hrest : rest.head? ≠ some '\x27') :
    readBody escapes ('\x27' :: rest) = some ([], rest) := by
  refine readBody.eq_3 escapes rest ?_
  intro tail htail
  rw [htail] at hrest
  exact hrest rfl

theorem readBody_plain {c : Char} (hquote : c ≠ '\x27') (hbackslash : escapes = true → c ≠ '\\')
    (rest : List Char) :
    readBody escapes (c :: rest) = (readBody escapes rest).map (prepend [c]) := by
  by_cases hc : c = '\\'
  · subst hc
    have hoff : escapes = false := by
      cases escapes with
      | false => rfl
      | true => exact absurd rfl (hbackslash rfl)
    cases rest with
    | nil => rfl
    | cons d rest => rw [readBody, hoff]; simp
  · exact readBody.eq_5 escapes c rest (fun _ h _ => hquote h) hquote (fun _ _ h _ => hc h)

theorem readBody_escape (c : Char) (rest : List Char) :
    readBody true ('\\' :: c :: rest) = (readBody true rest).map (prepend (unescaped c)) := by
  rw [readBody, if_pos rfl]

end Reading

theorem keepsBackslash_ne {c d : Char} (hc : keepsBackslash c = true)
    (hd : keepsBackslash d = false) : c ≠ d := by
  intro h
  rw [h, hd] at hc
  exact Bool.noConfusion hc

theorem escapeCode_eq_backslash {c : Char} (h : escapeCode c = '\\') : c = '\\' := by
  unfold escapeCode at h
  grind

/-- An escape is no shorter than what it stands for, with each quote counted twice. -/
theorem unescaped_weight (c : Char) :
    (unescaped c).length + (unescaped c).count '\x27' ≤ 2 := by
  rw [unescaped]
  by_cases hc : keepsBackslash c = true
  · have hquote : c ≠ '\x27' := keepsBackslash_ne hc (by decide)
    rw [if_pos hc]
    simp [hquote]
  · rw [if_neg hc]
    have hcount : List.count '\x27' [escapeCode c] ≤ 1 := List.count_le_length
    simp only [List.length_singleton]
    omega

theorem doubled_cons_of_ne {c : Char} (hc : c ≠ '\x27') (cs : List Char) :
    doubled '\x27' (c :: cs) = c :: doubled '\x27' cs := by
  rw [doubled, if_neg (by simpa using hc)]

theorem doubled_weight (cs : List Char) :
    (doubled '\x27' cs).length = cs.length + cs.count '\x27' := by
  induction cs with
  | nil => rfl
  | cons c cs ih =>
    by_cases hc : c = '\x27'
    · subst hc
      have hdoubled : doubled '\x27' ('\x27' :: cs) = '\x27' :: '\x27' :: doubled '\x27' cs := rfl
      rw [hdoubled, List.count_cons_self]
      simp only [List.length_cons, ih]
      omega
    · rw [doubled_cons_of_ne hc, List.count_cons_of_ne hc]
      simp only [List.length_cons, ih]
      omega

/-- A literal is longer than what it stands for, with each quote counted twice. -/
theorem readBody_weight {cs : List Char} :
    ∀ {out rest : List Char}, readBody true cs = some (out, rest) →
      out.length + out.count '\x27' + rest.length < cs.length := by
  fun_induction readBody true cs with
  | case1 =>
    intro out rest h
    exact absurd h (by simp)
  | case2 cs ih =>
    intro out rest h
    obtain ⟨tail, htail, hout⟩ := map_prepend_eq_some.1 h
    have hlt := ih htail
    rw [← hout]
    simp only [List.singleton_append, List.length_cons, List.count_cons_self]
    omega
  | case3 cs hnext =>
    intro out rest h
    simp only [Option.some.injEq, Prod.mk.injEq] at h
    rw [← h.1, ← h.2]
    simp
  | case4 c cs _ ih =>
    intro out rest h
    obtain ⟨tail, htail, hout⟩ := map_prepend_eq_some.1 h
    have hlt := ih htail
    have hle := unescaped_weight c
    rw [← hout]
    simp only [List.length_cons, List.length_append, List.count_append]
    omega
  | case5 c cs hoff _ => exact absurd rfl hoff
  | case6 c cs hdoubled hquote hbackslash ih =>
    intro out rest h
    obtain ⟨tail, htail, hout⟩ := map_prepend_eq_some.1 h
    have hlt := ih htail
    rw [← hout]
    simp only [List.singleton_append, List.length_cons, List.count_cons_of_ne hquote]
    omega

/-- A backslash is read first only where one was escaped. -/
theorem readBody_backslash {d : Char} (hd : keepsBackslash d = false) {cs out rest : List Char}
    (h : readBody true ('\\' :: d :: cs) = some ('\\' :: out, rest)) :
    d = '\\' ∧ readBody true cs = some (out, rest) := by
  rw [readBody_escape, unescaped, hd] at h
  obtain ⟨tail, htail, hout⟩ := map_prepend_eq_some.1 h
  have hcons := List.cons.inj hout
  have hrest : tail = out := hcons.2
  rw [hrest] at htail
  exact ⟨escapeCode_eq_backslash hcons.1, htail⟩

/-- A backslash that is kept is read as any other character is. -/
theorem readBody_kept {cs : List Char} (hcs : cs.head?.any keepsBackslash) (rest : List Char) :
    readBody true ('\\' :: (doubled '\x27' cs ++ rest)) =
      (readBody true (doubled '\x27' cs ++ rest)).map (prepend ['\\']) := by
  cases cs with
  | nil => exact absurd hcs (by decide)
  | cons c cs =>
    have hc : keepsBackslash c = true := by simpa using hcs
    have hquote : c ≠ '\x27' := keepsBackslash_ne hc (by decide)
    have hbackslash : c ≠ '\\' := keepsBackslash_ne hc (by decide)
    rw [doubled_cons_of_ne hquote, List.cons_append, readBody_escape,
      readBody_plain hquote (fun _ => hbackslash), unescaped, if_pos hc, Option.map_map]
    rfl

/-- A backslash that is not kept is lost: what follows is too short to make up for it. -/
theorem readBody_lost {cs : List Char} (hcs : ¬ cs.head?.any keepsBackslash) (rest : List Char) :
    readBody true ('\\' :: (doubled '\x27' cs ++ '\x27' :: rest)) ≠ some ('\\' :: cs, rest) := by
  intro h
  cases cs with
  | nil => exact absurd (readBody_backslash (by decide) h).1 (by decide)
  | cons d cs =>
    by_cases hquote : d = '\x27'
    · subst hquote
      exact absurd (readBody_backslash (by decide) h).1 (by decide)
    · have hd : keepsBackslash d = false := by simpa using hcs
      rw [doubled_cons_of_ne hquote, List.cons_append] at h
      -- Two backslashes were read as one, so the rest would have to be read as one character more.
      have hlt := readBody_weight (readBody_backslash hd h).2
      rw [List.count_cons_of_ne hquote] at hlt
      simp only [List.length_append, doubled_weight, List.length_cons] at hlt
      omega

/-- The body of a literal is read back, up to its closing quote, exactly if no backslash of the
text is lost. -/
theorem readBody_doubled_iff (escapes : Bool) (cs : List Char) {rest : List Char}
    (hrest : rest.head? ≠ some '\x27') :
    readBody escapes (doubled '\x27' cs ++ '\x27' :: rest) = some (cs, rest) ↔
      (escapes = true → BackslashesKept cs) := by
  induction cs with
  | nil =>
    have hread : readBody escapes (doubled '\x27' [] ++ '\x27' :: rest) = some ([], rest) :=
      readBody_close hrest
    exact iff_of_true hread fun _ => backslashesKept_nil
  | cons c cs ih =>
    rw [backslashesKept_cons]
    by_cases hquote : c = '\x27'
    · subst hquote
      have hread : readBody escapes (doubled '\x27' ('\x27' :: cs) ++ '\x27' :: rest)
          = (readBody escapes (doubled '\x27' cs ++ '\x27' :: rest)).map (prepend ['\x27']) := rfl
      rw [hread, map_prepend_singleton_iff, ih]
      simp
    · rw [doubled_cons_of_ne hquote, List.cons_append]
      by_cases hplain : escapes = true → c ≠ '\\'
      · rw [readBody_plain hquote hplain, map_prepend_singleton_iff, ih]
        grind
      · have hon : escapes = true := by grind
        have hc : c = '\\' := by grind
        subst hon hc
        by_cases hkept : cs.head?.any keepsBackslash
        · rw [readBody_kept hkept, map_prepend_singleton_iff, ih]
          simp [hkept]
        · exact iff_of_false (readBody_lost hkept rest) fun h => hkept ((h rfl).1 rfl)

theorem readLiteral?_literal_iff (escapes : Bool) (s : String) {rest : List Char}
    (hrest : rest.head? ≠ some '\x27') :
    readLiteral? escapes ((literal s).toList ++ rest) = some (s.toList, rest) ↔
      (escapes = true → BackslashesKept s.toList) := by
  have hread : readLiteral? escapes ((literal s).toList ++ rest)
      = readBody escapes (doubled '\x27' s.toList ++ '\x27' :: rest) := by
    rw [literal, String.toList_ofList, List.cons_append, List.append_assoc]
    rfl
  rw [hread, readBody_doubled_iff escapes s.toList hrest]

theorem exists_intercalate_eq (separator : String) {ss : List String} {s : String} (h : s ∈ ss) :
    ∃ before after, separator.intercalate ss = before ++ s ++ after := by
  induction ss with
  | nil => exact absurd h (by simp)
  | cons first rest ih =>
    cases rest with
    | nil =>
      have hs : s = first := by simpa using h
      exact ⟨"", "", by simp [hs]⟩
    | cons second rest =>
      rw [String.intercalate_cons_cons]
      cases List.mem_cons.1 h with
      | inl hs =>
        rw [hs, String.append_assoc]
        exact ⟨"", _, by rw [String.empty_append]⟩
      | inr hs =>
        have ⟨before, after, heq⟩ := ih hs
        exact ⟨first ++ separator ++ before, after, by rw [heq]; simp only [String.append_assoc]⟩

end Text

namespace GroupClause

def writtenBare : Value → Bool
  | .null | .bool _ | .int _ | .real _ => true
  | _ => false

/-- The identities that stand for no column of their own: a map gives its fields, and an absent or
empty one gives none. -/
def noColumn : Value → Bool
  | .null | .map _ => true
  | .str s => s == ""
  | _ => false

/-- A group writes a value as a literal: for its identity, or as the operand of an accumulator. -/
inductive Inlines (spec : Fields) (v : Value) : Prop where
  | identity (hv : Stage.identity spec = v) (hcolumn : noColumn v = false)
      (hreference : v.reference? = none)
  | operand (name : String) (operator : Value)
      (hmem : (name, .map [(operator, v)]) ∈ Stage.accumulators spec)
      (hbare : writtenBare v = false) (hreference : v.reference? = none)

theorem operand_of_literal {v : Value} (hbare : writtenBare v = false)
    (hreference : v.reference? = none) : operand v = Dialect.literal v := by
  unfold operand
  grind [writtenBare]

theorem identityColumns_of_literal {v : Value} (hcolumn : noColumn v = false)
    (hreference : v.reference? = none) :
    identityColumns v = ([Dialect.literal v ++ " AS _id"], []) := by
  unfold identityColumns
  grind [noColumn]

theorem accumulator_eq_ok {name output : String} {operator v : Value}
    (h : accumulator name (.map [(operator, v)]) = .ok output) :
    ∃ a : Aggregate, output = a.function ++ "(" ++ operand v ++ ") AS " ++ name := by
  unfold accumulator at h
  cases ha : Aggregate.ofName? operator with
  | none => simp [ha] at h
  | some a =>
    simp only [ha] at h
    exact ⟨a, (Except.ok.inj h).symm⟩

theorem accumulatorColumns_mem {fields : Fields} {outputs : List String}
    (h : accumulatorColumns fields = .ok outputs) {name : String} {v : Value}
    (hmem : (name, v) ∈ fields) : ∃ output ∈ outputs, accumulator name v = .ok output := by
  induction fields generalizing outputs with
  | nil => exact absurd hmem (by simp)
  | cons field fields ih =>
    obtain ⟨first, hfirst, h⟩ := except_bind_eq_ok_iff.mp h
    obtain ⟨rest, hrest, h⟩ := except_bind_eq_ok_iff.mp h
    have houtputs : first :: rest = outputs := Except.ok.inj h
    rw [← houtputs]
    cases List.mem_cons.1 hmem with
    | inl hfield =>
      rw [← hfield] at hfirst
      exact ⟨first, List.mem_cons_self, hfirst⟩
    | inr hlater =>
      have ⟨output, houtput, heq⟩ := ih hrest hlater
      exact ⟨output, List.mem_cons_of_mem first houtput, heq⟩

/-- What a group writes as a literal stands in one of its columns, with no quote after it. -/
theorem Inlines.column {spec : Fields} {v : Value} (hv : Inlines spec v) {outputs : List String}
    (h : accumulatorColumns (Stage.accumulators spec) = .ok outputs) :
    ∃ before after : String, ∃ c,
      before ++ Dialect.literal v ++ after ∈ (identityColumns (Stage.identity spec)).1 ++ outputs ∧
        after.toList.head? = some c ∧ c ≠ '\x27' := by
  cases hv with
  | identity hv hcolumn hreference =>
    refine ⟨"", " AS _id", ' ', List.mem_append_left _ ?_, rfl, by decide⟩
    rw [hv, identityColumns_of_literal hcolumn hreference, String.empty_append]
    exact List.mem_singleton_self _
  | operand name operator hmem hbare hreference =>
    obtain ⟨output, houtput, hwritten⟩ := accumulatorColumns_mem h hmem
    obtain ⟨a, ha⟩ := accumulator_eq_ok hwritten
    rw [operand_of_literal hbare hreference, String.append_assoc] at ha
    rw [ha] at houtput
    refine ⟨a.function ++ "(", ") AS " ++ name, ')', List.mem_append_right _ houtput, ?_, by decide⟩
    rw [String.toList_append]
    rfl

theorem ofSpec_eq_ok {spec : Fields} {clause : GroupClause} {j j' : Journal}
    (h : ofSpec spec j = .ok clause j') :
    ∃ outputs, accumulatorColumns (Stage.accumulators spec) = .ok outputs ∧
      clause.select = ", ".intercalate ((identityColumns (Stage.identity spec)).1 ++ outputs) := by
  unfold ofSpec at h
  generalize identityColumns (Stage.identity spec) = parts at h ⊢
  obtain ⟨columns, groupBy⟩ := parts
  obtain ⟨outputs, k, hlift, h⟩ := bind_eq_ok_iff.mp h
  refine ⟨outputs, (liftExcept_eq_ok_iff.mp hlift).1, ?_⟩
  split at h
  · exact absurd h throw_ne_ok
  · rw [(noted_eq_ok_iff.mp h).1]

theorem Inlines.select {spec : Fields} {v : Value} (hv : Inlines spec v) {clause : GroupClause}
    {j j' : Journal} (h : ofSpec spec j = .ok clause j') :
    ∃ before after c, clause.select.toList = before ++ (Dialect.literal v).toList ++ c :: after ∧
      c ≠ '\x27' := by
  obtain ⟨outputs, houtputs, hselect⟩ := ofSpec_eq_ok h
  obtain ⟨left, right, c, hmem, hc, hquote⟩ := hv.column houtputs
  obtain ⟨before, after, hjoined⟩ := Text.exists_intercalate_eq ", " hmem
  obtain ⟨tail, htail⟩ := List.head?_eq_some_iff.1 hc
  refine ⟨before.toList ++ left.toList, tail ++ after.toList, c, ?_, hquote⟩
  rw [hselect, hjoined]
  simp [htail]

/-- Where a backslash escapes, a literal is read up to its last quote, as the text of its value,
exactly if every backslash of the text is kept. What a group writes as a literal stands in its
columns before something that is no quote, so the same holds of it there. -/
theorem inlined_literal_read_back_iff (v : Value) :
    (∀ rest : List Char, rest.head? ≠ some '\x27' →
      (Text.readLiteral? true ((Dialect.literal v).toList ++ rest) = some (v.text.toList, rest) ↔
        Text.BackslashesKept v.text.toList)) ∧
    ∀ spec clause j j', ofSpec spec j = .ok clause j' → Inlines spec v →
      ∃ before after, clause.select.toList = before ++ (Dialect.literal v).toList ++ after ∧
        ∀ rest, Text.readLiteral? true ((Dialect.literal v).toList ++ (after ++ rest)) =
            some (v.text.toList, after ++ rest) ↔ Text.BackslashesKept v.text.toList := by
  have hread : ∀ rest : List Char, rest.head? ≠ some '\x27' →
      (Text.readLiteral? true ((Dialect.literal v).toList ++ rest) = some (v.text.toList, rest) ↔
        Text.BackslashesKept v.text.toList) := by
    intro rest hrest
    rw [Dialect.literal, Text.readLiteral?_literal_iff true v.text hrest]
    simp
  refine ⟨hread, ?_⟩
  intro spec clause j j' hclause hv
  obtain ⟨before, after, c, hselect, hc⟩ := hv.select hclause
  refine ⟨before, c :: after, hselect, ?_⟩
  intro rest
  exact hread (c :: after ++ rest) (by simpa using hc)

def byBackslash : Fields := [("_id", .str "\\"), ("m", .map [(.str "$max", .str "x")])]

/-- The backslash takes the closing quote with it: the literal goes on up to the next one. -/
theorem byBackslash_not_read_back :
    ∃ clause j', ofSpec byBackslash {} = .ok clause j' ∧
      Text.readLiteral? true clause.select.toList =
        some ("' AS _id, MAX(".toList, "x') AS m".toList) ∧
      ∃ before after, clause.select.toList = before ++ "'\\'".toList ++ after ∧
        ∀ rest, Text.readLiteral? true ("'\\'".toList ++ (after ++ rest)) ≠
          some ("\\".toList, after ++ rest) := by
  have hlost : ¬ Text.BackslashesKept "\\".toList := fun h => absurd (h [] [] rfl) (by decide)
  have hclause : ∃ j', ofSpec byBackslash {} = .ok ⟨"'\\' AS _id, MAX('x') AS m", ""⟩ j' := ⟨_, rfl⟩
  obtain ⟨j', hclause⟩ := hclause
  obtain ⟨before, after, hselect, hread⟩ :=
    (inlined_literal_read_back_iff (.str "\\")).2 byBackslash _ _ _ hclause
      (.identity rfl (by decide) (by decide))
  exact ⟨_, j', hclause, by decide, before, after, hselect, fun rest h => hlost ((hread rest).1 h)⟩

end GroupClause

end BoundQuery
