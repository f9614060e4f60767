import BoundQuery.Proofs.Literal
import BoundQuery.Proofs.Placeholder
import Mathlib.Data.List.Forall2

/-! Literals read off a list of columns. Where a backslash is a character like any other, a literal
is read back as the text it was written for, whatever that text holds, so that the columns of a
group tell its literals. -/
namespace BoundQuery

namespace Text

theorem readLiteral?_literal (s : String) {rest : List Char} (hrest : rest.head? ≠ some '\x27') :
    readLiteral? false ((literal s).toList ++ rest) = some (s.toList, rest) :=
  (readLiteral?_literal_iff false s hrest).mpr nofun

/-- Two texts that begin with literals have the same literal, and the same text after it. -/
theorem literal_append_inj {s t : String} {rest rest' : List Char}
    (hrest : rest.head? ≠ some '\x27') (hrest' : rest'.head? ≠ some '\x27')
    (h : (literal s).toList ++ rest = (literal t).toList ++ rest') : s = t ∧ rest = rest' := by
  have hs := readLiteral?_literal s hrest
  rw [h, readLiteral?_literal t hrest'] at hs
  obtain ⟨htext, hafter⟩ := Prod.mk.inj (Option.some.inj hs)
  exact ⟨(String.toList_inj.mp htext).symm, hafter.symm⟩

/-- What follows a literal is shorter than what it is read from. -/
theorem readBody_shorter {escapes : Bool} {cs out rest : List Char}
    (h : readBody escapes cs = some (out, rest)) : rest.length < cs.length := by
  fun_induction readBody escapes cs generalizing out with
  | case1 => cases h
  | case2 cs ih =>
    obtain ⟨tail, htail, -⟩ := map_prepend_eq_some.1 h
    exact Nat.lt_succ_of_lt (Nat.lt_succ_of_lt (ih htail))
  | case3 cs hnext =>
    obtain ⟨-, rfl⟩ := Prod.mk.inj (Option.some.inj h)
    exact Nat.lt_succ_self _
  | case4 c cs _ ih =>
    obtain ⟨tail, htail, -⟩ := map_prepend_eq_some.1 h
    exact Nat.lt_succ_of_lt (Nat.lt_succ_of_lt (ih htail))
  | case5 c cs _ ih =>
    obtain ⟨tail, htail, -⟩ := map_prepend_eq_some.1 h
    exact Nat.lt_succ_of_lt (ih htail)
  | case6 c cs hdoubled hquote hbackslash ih =>
    obtain ⟨tail, htail, -⟩ := map_prepend_eq_some.1 h
    exact Nat.lt_succ_of_lt (ih htail)

/-- The literals of a text, from left to right, up to one that is not closed. -/
def literals : List Char → List (List Char)
  | [] => []
  | c :: cs =>
    if c = '\x27' then
      match _h : readBody false cs with
      | some (out, rest) => out :: literals rest
      | none => []
    else literals cs
termination_by cs => cs.length
decreasing_by
  · exact Nat.lt_succ_of_lt (readBody_shorter _h)
  · exact Nat.lt_succ_self _

theorem literals_append {before : List Char} (h : '\x27' ∉ before) (rest : List Char) :
    literals (before ++ rest) = literals rest := by
  induction before with
  | nil => rfl
  | cons c before ih =>
    have hc : c ≠ '\x27' := fun hc => h (hc ▸ List.mem_cons_self)
    have hbefore : '\x27' ∉ before := fun hmem => h (List.mem_cons_of_mem c hmem)
    rw [List.cons_append, literals, if_neg hc, ih hbefore]

theorem literals_literal (s : String) {rest : List Char} (hrest : rest.head? ≠ some '\x27') :
    literals ((literal s).toList ++ rest) = s.toList :: literals rest := by
  have hread := readLiteral?_literal s hrest
  have hcons : (literal s).toList ++ rest =
      '\x27' :: (doubled '\x27' s.toList ++ ['\x27'] ++ rest) := by
    rw [literal, String.toList_ofList, List.cons_append]
  rw [hcons] at hread ⊢
  rw [literals, if_pos rfl]
  split
  · rename_i out after hbody
    obtain ⟨rfl, rfl⟩ := Prod.mk.inj (Option.some.inj (hbody.symm.trans hread))
    rfl
  · rename_i hbody
    cases hbody.symm.trans hread

theorem toList_intercalate_cons (separator first : String) (rest : List String) :
    (separator.intercalate (first :: rest)).toList =
      first.toList ++ rest.flatMap fun s => separator.toList ++ s.toList := by
  induction rest generalizing first with
  | nil => simp
  | cons second rest ih =>
    rw [String.intercalate_cons_cons, String.toList_append, ih, List.flatMap_cons,
      String.toList_append]
    simp only [List.append_assoc]

end Text

namespace GroupClause

def LiteralIdentity (v : Value) : Prop := noColumn v = false ∧ v.reference? = none

def LiteralOperand (v : Value) : Prop := writtenBare v = false ∧ v.reference? = none

/-- The group is by a literal, and its accumulators are of literals: those given, each with the name
of its column. -/
structure OfLiterals (spec : Fields) (operands : List (String × Value)) : Prop where
  identity : LiteralIdentity (Stage.identity spec)
  accumulators : List.Forall₂ (fun f o => f.1 = o.1 ∧ LiteralOperand o.2 ∧
    ∃ operator, f.2 = .map [(operator, o.2)]) (Stage.accumulators spec) operands

def literalColumn (a : Aggregate) (o : String × Value) : String :=
  a.function ++ "(" ++ Dialect.literal o.2 ++ ") AS " ++ o.1

theorem function_length (a : Aggregate) : a.function.toList.length = 3 := by
  cases a <;> rfl

theorem function_lacks_quote (a : Aggregate) : '\x27' ∉ a.function.toList := by
  cases a <;> decide

/-- The column before its literal, the literal, and what follows it up to the end of the text. -/
theorem toList_literalColumn_append (a : Aggregate) (o : String × Value) (rest : List Char) :
    (literalColumn a o).toList ++ rest = a.function.toList ++ "(".toList ++
      ((Dialect.literal o.2).toList ++ (") AS ".toList ++ (o.1.toList ++ rest))) := by
  simp [literalColumn]

variable {spec spec' : Fields} {operands operands' : List (String × Value)}
  {clause clause' : GroupClause} {j j' : Journal}

theorem accumulatorColumns_literals {fields : Fields} {outputs : List String}
    (hfields : List.Forall₂ (fun f o => f.1 = o.1 ∧ LiteralOperand o.2 ∧
      ∃ operator, f.2 = .map [(operator, o.2)]) fields operands)
    (h : accumulatorColumns fields = .ok outputs) :
    List.Forall₂ (fun o output => ∃ a, output = literalColumn a o) operands outputs := by
  induction hfields generalizing outputs with
  | nil =>
    obtain rfl := Except.ok.inj h
    exact .nil
  | @cons f o fields operands hfirst _ ih =>
    obtain ⟨name, v⟩ := f
    obtain ⟨rfl, ⟨hbare, hreference⟩, operator, rfl⟩ := hfirst
    obtain ⟨first, hwritten, h⟩ := except_bind_eq_ok_iff.mp h
    obtain ⟨rest, hrest, h⟩ := except_bind_eq_ok_iff.mp h
    obtain rfl := Except.ok.inj h
    obtain ⟨a, ha⟩ := accumulator_eq_ok hwritten
    rw [operand_of_literal hbare hreference] at ha
    exact .cons ⟨a, ha⟩ (ih hrest)

/-- The columns of a group of literals: first that of the identity, then one for each operand. -/
theorem OfLiterals.select (hspec : OfLiterals spec operands)
    (h : ofSpec spec j = .ok clause j') :
    ∃ outputs, List.Forall₂ (fun o output => ∃ a, output = literalColumn a o) operands outputs ∧
      clause.select.toList = (Dialect.literal (Stage.identity spec)).toList ++ (" AS _id".toList ++
        outputs.flatMap fun s => ", ".toList ++ s.toList) := by
  obtain ⟨outputs, houtputs, hselect⟩ := ofSpec_eq_ok h
  refine ⟨outputs, accumulatorColumns_literals hspec.accumulators houtputs, ?_⟩
  rw [hselect, identityColumns_of_literal hspec.identity.1 hspec.identity.2, List.singleton_append,
    Text.toList_intercalate_cons, String.toList_append, List.append_assoc]

theorem literals_outputs {outputs : List String}
    (h : List.Forall₂ (fun o output => ∃ a, output = literalColumn a o) operands outputs)
    (hnames : ∀ o ∈ operands, Text.Lacks '\x27' o.1) :
    Text.literals (outputs.flatMap fun s => ", ".toList ++ s.toList) =
      operands.map fun o => o.2.text.toList := by
  induction h with
  | nil => rw [List.flatMap_nil, Text.literals, List.map_nil]
  | @cons o output operands outputs hfirst _ ih =>
    obtain ⟨a, rfl⟩ := hfirst
    obtain ⟨hname, hrest⟩ := List.forall_mem_cons.mp hnames
    have hbefore : '\x27' ∉ ", ".toList ++ (a.function.toList ++ "(".toList) := by
      simp [function_lacks_quote a]
    rw [List.flatMap_cons, List.append_assoc, toList_literalColumn_append, ← List.append_assoc,
      Text.literals_append hbefore, Dialect.literal, Text.literals_literal _ (by simp),
      Text.literals_append (by decide), Text.literals_append hname, ih hrest, List.map_cons]

/-- Where the names are known, equal columns hold equal literals. By induction on the columns: each
function has a name of three letters, so the literals begin at the same place. -/
theorem outputs_inj {outputs outputs' : List String}
    (h : List.Forall₂ (fun o output => ∃ a, output = literalColumn a o) operands outputs)
    (h' : List.Forall₂ (fun o output => ∃ a, output = literalColumn a o) operands' outputs')
    (hnames : operands.map Prod.fst = operands'.map Prod.fst)
    (heq : (outputs.flatMap fun s => ", ".toList ++ s.toList) =
      outputs'.flatMap fun s => ", ".toList ++ s.toList) :
    operands.map (fun o => o.2.text) = operands'.map fun o => o.2.text := by
  induction h generalizing operands' outputs' with
  | nil =>
    obtain rfl : operands' = [] := by simpa using hnames.symm
    rfl
  | @cons o output operands outputs hfirst _ ih =>
    cases h' with
    | nil => simp at hnames
    | @cons o' output' operands' outputs' hfirst' hrest' =>
      obtain ⟨a, rfl⟩ := hfirst
      obtain ⟨a', rfl⟩ := hfirst'
      obtain ⟨hname, hnames⟩ := List.cons.inj hnames
      rw [List.flatMap_cons, List.flatMap_cons, List.append_assoc, List.append_assoc,
        List.append_cancel_left_eq, toList_literalColumn_append, toList_literalColumn_append] at heq
      obtain ⟨-, hliterals⟩ := List.append_inj heq (by simp [function_length])
      obtain ⟨htext, hafter⟩ := Text.literal_append_inj (by simp) (by simp) hliterals
      rw [hname, List.append_cancel_left_eq, List.append_cancel_left_eq] at hafter
      rw [List.map_cons, List.map_cons, htext, ih hrest' hnames hafter]

/-- Where a backslash is a character like any other, every literal is read up to its last quote, as
the text of its value. So the columns of a group by a literal with accumulators of literals tell the
texts of all of them: they can be read off if no name of a column has a quote in it, and groups
with the same names and columns have literals of the same texts. -/
theorem columns_tell_literals :
    (∀ (v : Value) (rest : List Char), rest.head? ≠ some '\x27' →
      Text.readLiteral? false ((Dialect.literal v).toList ++ rest) = some (v.text.toList, rest)) ∧
    (∀ spec operands clause j j', OfLiterals spec operands → ofSpec spec j = .ok clause j' →
      (∀ o ∈ operands, Text.Lacks '\x27' o.1) →
      Text.literals clause.select.toList =
        (Stage.identity spec).text.toList :: operands.map fun o => o.2.text.toList) ∧
    ∀ spec spec' operands operands' clause clause' j j' k k', OfLiterals spec operands →
      OfLiterals spec' operands' → ofSpec spec j = .ok clause j' →
      ofSpec spec' k = .ok clause' k' → operands.map Prod.fst = operands'.map Prod.fst →
      clause.select = clause'.select →
      (Stage.identity spec).text = (Stage.identity spec').text ∧
        operands.map (fun o => o.2.text) = operands'.map fun o => o.2.text := by
  refine ⟨fun v rest hrest => Text.readLiteral?_literal v.text hrest, ?_, ?_⟩
  · intro spec operands clause j j' hspec hclause hnames
    obtain ⟨outputs, houtputs, hselect⟩ := hspec.select hclause
    rw [hselect, Dialect.literal, Text.literals_literal _ (by simp),
      Text.literals_append (by decide), literals_outputs houtputs hnames]
  · intro spec spec' operands operands' clause clause' j j' k k' hspec hspec' hclause hclause'
      hnames heq
    obtain ⟨outputs, houtputs, hselect⟩ := hspec.select hclause
    obtain ⟨outputs', houtputs', hselect'⟩ := hspec'.select hclause'
    rw [heq, hselect'] at hselect
    obtain ⟨hidentity, hafter⟩ := Text.literal_append_inj (by simp) (by simp) hselect
    rw [List.append_cancel_left_eq] at hafter
    exact ⟨hidentity.symm, outputs_inj houtputs houtputs' hnames hafter.symm⟩

def longLastName : Fields :=
  [("_id", .str "i"), ("a", .map [(.str "$max", .str "x")]),
    ("b, MAX('y') AS c", .map [(.str "$max", .str "z")])]

def longFirstName : Fields :=
  [("_id", .str "i"), ("a, MAX('z') AS b", .map [(.str "$max", .str "x")]),
    ("c", .map [(.str "$max", .str "y")])]

/-- With quotes in the names, the same columns can stand for different literals. -/
theorem quotes_in_names_hide_literals :
    OfLiterals longLastName [("a", .str "x"), ("b, MAX('y') AS c", .str "z")] ∧
    OfLiterals longFirstName [("a, MAX('z') AS b", .str "x"), ("c", .str "y")] ∧
    ∃ clause j j', ofSpec longLastName {} = .ok clause j ∧ ofSpec longFirstName {} = .ok clause j' ∧
      clause.select = "'i' AS _id, MAX('x') AS a, MAX('z') AS b, MAX('y') AS c" := by
  have hliteral : ∀ s ∈ ["x", "y", "z"], LiteralOperand (.str s) := by
    intro s hs
    simp only [List.mem_cons, List.not_mem_nil, or_false] at hs
    rcases hs with rfl | rfl | rfl <;> exact ⟨by decide, by decide⟩
  have hidentity : LiteralIdentity (.str "i") := ⟨by decide, by decide⟩
  refine ⟨⟨hidentity, .cons ⟨rfl, hliteral "x" (by simp), _, rfl⟩
      (.cons ⟨rfl, hliteral "z" (by simp), _, rfl⟩ .nil)⟩,
    ⟨hidentity, .cons ⟨rfl, hliteral "x" (by simp), _, rfl⟩
      (.cons ⟨rfl, hliteral "y" (by simp), _, rfl⟩ .nil)⟩, _, _, _, rfl, rfl, by decide +kernel⟩

/-- A group whose literals look like parts of its columns, one of them by the value `v`. -/
def lookalike (v : Value) : Fields :=
  [("_id", .str "it's' AS _id"), ("m", .map [(.str "$max", .str "'), MIN('")]),
    ("n", .map [(.str "$min", v)])]

theorem lookalike_ofLiterals {v : Value} (hv : LiteralOperand v) :
    OfLiterals (lookalike v) [("m", .str "'), MIN('"), ("n", v)] := by
  have hidentity : LiteralIdentity (.str "it's' AS _id") := ⟨by decide, by decide⟩
  have hoperand : LiteralOperand (.str "'), MIN('") := ⟨by decide, by decide⟩
  exact ⟨hidentity, .cons ⟨rfl, hoperand, _, rfl⟩ (.cons ⟨rfl, hv, _, rfl⟩ .nil)⟩

theorem lookalike_literals_told :
    ∃ clause clause' j j', ofSpec (lookalike (.list [.str "a"])) {} = .ok clause j ∧
      ofSpec (lookalike (.str "['a']")) {} = .ok clause' j' ∧
      clause.select = "'it''s'' AS _id' AS _id, MAX('''), MIN(''') AS m, MIN('[''a'']') AS n" ∧
      Text.readLiteral? false ("'it''s'' AS _id'".toList ++ " AS _id".toList) =
        some ("it's' AS _id".toList, " AS _id".toList) ∧
      Text.literals clause.select.toList =
        ["it's' AS _id".toList, "'), MIN('".toList, "['a']".toList] ∧
      clause.select = clause'.select ∧ (Value.list [.str "a"]).text = (Value.str "['a']").text := by
  have hlist : LiteralOperand (.list [.str "a"]) := ⟨rfl, rfl⟩
  have htext : LiteralOperand (.str "['a']") := ⟨by decide, by decide⟩
  have hshown : (Value.list [.str "a"]).text = "['a']" := by decide +kernel
  obtain ⟨hread, htold, hsame⟩ := columns_tell_literals
  have hclause : ∃ clause j, ofSpec (lookalike (.list [.str "a"])) {} = .ok clause j ∧
      clause.select = "'it''s'' AS _id' AS _id, MAX('''), MIN(''') AS m, MIN('[''a'']') AS n" :=
    ⟨_, _, rfl, by decide +kernel⟩
  have hclause' : ∃ clause j, ofSpec (lookalike (.str "['a']")) {} = .ok clause j ∧
      clause.select = "'it''s'' AS _id' AS _id, MAX('''), MIN(''') AS m, MIN('[''a'']') AS n" :=
    ⟨_, _, rfl, by decide +kernel⟩
  obtain ⟨clause, j, hj, hselect⟩ := hclause
  obtain ⟨clause', j', hj', hselect'⟩ := hclause'
  have hliterals := htold _ _ _ _ _ (lookalike_ofLiterals hlist) hj (by decide)
  have htexts := hsame _ _ _ _ _ _ _ _ _ _ (lookalike_ofLiterals hlist)
    (lookalike_ofLiterals htext) hj hj' rfl (hselect.trans hselect'.symm)
  refine ⟨clause, clause', j, j', hj, hj', hselect, ?_, ?_, hselect.trans hselect'.symm, ?_⟩
  · exact hread (.str "it's' AS _id") " AS _id".toList (by decide)
  · rw [hliterals]
    simp [hshown, lookalike, Stage.identity, Fields.get?]
  · simpa using htexts.2

end GroupClause

end BoundQuery
