import BoundQuery.Pipeline

/-! Comments. A reader of SQL takes a comment to end at the first mark `*/`. From the path of an
unwound field all such marks are taken out, once and from left to right; a mark that has others
between its two characters is only then put together, and so ends the comment in the midst of the
path. In paths without such a mark the comment ends where it is meant to. -/
namespace BoundQuery

namespace Text

def closer : List Char := ['*', '/']

theorem closer_prefix_iff {c : Char} {cs : List Char} :
    closer <+: c :: cs ↔ c = '*' ∧ cs.head? = some '/' := by
  cases cs with
  | nil => simp [closer, List.cons_prefix_cons]
  | cons d ds => simp [closer, List.cons_prefix_cons, eq_comm]

theorem not_closer_prefix_cons {c : Char} (h : c ≠ '*') (cs : List Char) : ¬ closer <+: c :: cs :=
  fun hmark => h (closer_prefix_iff.mp hmark).1

/-- What follows the first mark that ends a comment. -/
def afterCloser? : List Char → Option (List Char)
  | '*' :: '/' :: rest => some rest
  | _ :: rest => afterCloser? rest
  | [] => none

theorem afterCloser?_closer (rest : List Char) : afterCloser? (closer ++ rest) = some rest := rfl

theorem afterCloser?_cons {c : Char} {cs : List Char} (h : ¬ closer <+: c :: cs) :
    afterCloser? (c :: cs) = afterCloser? cs := by
  refine afterCloser?.eq_2 c cs ?_
  rintro rest rfl rfl
  exact h (closer_prefix_iff.mpr ⟨rfl, rfl⟩)

theorem afterCloser?_eq_none_iff {cs : List Char} : afterCloser? cs = none ↔ ¬ closer <:+: cs := by
  induction cs with
  | nil => simp [afterCloser?, closer]
  | cons c cs ih =>
    rw [List.infix_cons_iff]
    by_cases hmark : closer <+: c :: cs
    · obtain ⟨rest, hrest⟩ := hmark
      rw [← hrest, afterCloser?_closer]
      simp
    · rw [afterCloser?_cons hmark, ih]
      simp [hmark]

theorem afterCloser?_append {cs tail : List Char} (h : afterCloser? cs = some tail)
    (rest : List Char) : afterCloser? (cs ++ rest) = some (tail ++ rest) := by
  induction cs with
  | nil => cases h
  | cons c cs ih =>
    by_cases hmark : closer <+: c :: cs
    · obtain ⟨after, hafter⟩ := hmark
      rw [← hafter, afterCloser?_closer] at h
      rw [← hafter, List.append_assoc, afterCloser?_closer, Option.some.inj h]
    · rw [afterCloser?_cons hmark] at h
      -- A mark is still to come, so none is put together with what is appended.
      have hlater : ¬ closer <+: c :: (cs ++ rest) := by
        cases cs with
        | nil => cases h
        | cons d ds => rwa [closer_prefix_iff] at hmark ⊢
      rw [List.cons_append, afterCloser?_cons hlater, ih h]

/-- A reader stops at the given mark, or before it. -/
theorem afterCloser?_of_mark (before after : List Char) :
    ∃ more, afterCloser? (before ++ closer ++ after) = some (more ++ after) := by
  have hmark : afterCloser? (before ++ closer) ≠ none := fun hnone =>
    afterCloser?_eq_none_iff.mp hnone (List.suffix_append before closer).isInfix
  obtain ⟨more, hmore⟩ := Option.ne_none_iff_exists'.mp hmark
  exact ⟨more, afterCloser?_append hmore after⟩

theorem suffix_of_afterCloser? {cs tail : List Char} (h : afterCloser? cs = some tail) :
    tail <:+ cs := by
  fun_induction afterCloser? cs with
  | case1 cs =>
    obtain rfl := Option.some.inj h
    exact List.suffix_append closer cs
  | case2 c cs hmark ih => exact (ih h).trans (List.suffix_cons c cs)
  | case3 => cases h

theorem afterCloser?_of_not_mem {cs : List Char} (h : '*' ∉ cs) (rest : List Char) :
    afterCloser? (cs ++ rest) = afterCloser? rest := by
  induction cs with
  | nil => rfl
  | cons c cs ih =>
    rw [List.mem_cons, not_or] at h
    have hmark := not_closer_prefix_cons (Ne.symm h.1) (cs ++ rest)
    rw [List.cons_append, afterCloser?_cons hmark, ih h.2]

/-- The first mark is the given one if there is none before it. -/
theorem afterCloser?_of_not_infix {cs : List Char} (h : ¬ closer <:+: cs) (rest : List Char) :
    afterCloser? (cs ++ closer ++ rest) = some rest := by
  induction cs with
  | nil => rfl
  | cons c cs ih =>
    rw [List.infix_cons_iff, not_or] at h
    have hlater : ¬ closer <+: c :: (cs ++ closer ++ rest) := by
      intro hmark
      have hfirst := closer_prefix_iff.mp hmark
      cases cs with
      | nil => simp [closer] at hfirst
      | cons d ds => exact h.1 (closer_prefix_iff.mpr hfirst)
    rw [List.cons_append, List.cons_append, afterCloser?_cons hlater, ih h.2]

/-- What a reader of SQL goes on with after a comment at the start of the text. -/
def afterComment? : List Char → Option (List Char)
  | '/' :: '*' :: rest => afterCloser? rest
  | _ => none

theorem closer_infix_append_left {cs rest : List Char} (h : '*' ∉ cs) :
    closer <:+: cs ++ rest ↔ closer <:+: rest := by
  induction cs with
  | nil => rfl
  | cons c cs ih =>
    rw [List.mem_cons, not_or] at h
    have hmark := not_closer_prefix_cons (Ne.symm h.1) (cs ++ rest)
    rw [List.cons_append, List.infix_cons_iff, ih h.2, or_iff_right hmark]

theorem closer_infix_append_right {cs rest : List Char} (h : '/' ∉ rest) :
    closer <:+: cs ++ rest ↔ closer <:+: cs := by
  refine ⟨fun hinfix => ?_, fun hinfix => hinfix.trans (List.prefix_append cs rest).isInfix⟩
  induction cs with
  | nil =>
    have hmem : '/' ∈ rest := hinfix.subset (by simp [closer])
    exact absurd hmem h
  | cons c cs ih =>
    rcases List.infix_cons_iff.mp hinfix with hmark | hlater
    · obtain ⟨rfl, hhead⟩ := closer_prefix_iff.mp hmark
      cases cs with
      | nil => exact absurd (List.mem_of_head? hhead) h
      | cons d ds =>
        have hmark : closer <+: '*' :: d :: ds := closer_prefix_iff.mpr ⟨rfl, hhead⟩
        exact hmark.isInfix
    · exact List.infix_cons (ih hlater)

/-- The mark that ends a comment, with `n` such marks between its two characters. -/
def closerAround (n : Nat) : List Char := '*' :: ((List.replicate n closer).flatten ++ ['/'])

end Text

namespace Plan

open Text

theorem withoutCloser_closer (rest : List Char) :
    withoutCloser (closer ++ rest) = withoutCloser rest := rfl

theorem withoutCloser_cons {c : Char} {cs : List Char} (h : ¬ closer <+: c :: cs) :
    withoutCloser (c :: cs) = c :: withoutCloser cs := by
  refine withoutCloser.eq_2 c cs ?_
  rintro rest rfl rfl
  exact h (closer_prefix_iff.mpr ⟨rfl, rfl⟩)

theorem withoutCloser_subset (cs : List Char) : withoutCloser cs ⊆ cs := by
  fun_induction withoutCloser cs with
  | case1 rest ih =>
    exact fun c hc => List.mem_cons_of_mem _ (List.mem_cons_of_mem _ (ih hc))
  | case2 c rest _ ih => exact List.cons_subset_cons c ih
  | case3 => exact List.Subset.refl _

/-- Marks are taken out of the two parts of a text one after the other, unless one lies across. -/
theorem withoutCloser_append (cs : List Char) {rest : List Char} (h : rest.head? ≠ some '/') :
    withoutCloser (cs ++ rest) = withoutCloser cs ++ withoutCloser rest := by
  fun_induction withoutCloser cs with
  | case1 cs ih => exact ih
  | case2 c cs hmark ih =>
    have hlater : ¬ closer <+: c :: (cs ++ rest) := by
      rw [closer_prefix_iff]
      rintro ⟨rfl, hhead⟩
      cases cs with
      | nil => exact h hhead
      | cons d ds =>
        obtain rfl : d = '/' := Option.some.inj hhead
        exact hmark ds rfl rfl
    rw [List.cons_append, withoutCloser_cons hlater, ih, List.cons_append]
  | case3 => rfl

theorem withoutCloser_marks (n : Nat) (rest : List Char) :
    withoutCloser ((List.replicate n closer).flatten ++ '/' :: rest) =
      '/' :: withoutCloser rest := by
  induction n with
  | zero => exact withoutCloser_cons (not_closer_prefix_cons (by decide) rest)
  | succ n ih =>
    rw [List.replicate_succ, List.flatten_cons, List.append_assoc, withoutCloser_closer, ih]

/-- A mark around others is put together. -/
theorem withoutCloser_closerAround (n : Nat) (rest : List Char) :
    withoutCloser (closerAround (n + 1) ++ rest) = closer ++ withoutCloser rest := by
  have hkept : ¬ closer <+: '*' :: ((List.replicate (n + 1) closer).flatten ++ '/' :: rest) := by
    simp [closer, List.replicate_succ]
  have htext : closerAround (n + 1) ++ rest =
      '*' :: ((List.replicate (n + 1) closer).flatten ++ '/' :: rest) := by
    simp [closerAround]
  rw [htext, withoutCloser_cons hkept, withoutCloser_marks]
  rfl

/-- What is left begins with the second half of a mark only after marks that were taken out. -/
theorem marks_prefix_of_head {cs : List Char} (h : (withoutCloser cs).head? = some '/') :
    ∃ n, (List.replicate n closer).flatten ++ ['/'] <+: cs := by
  fun_induction withoutCloser cs with
  | case1 cs ih =>
    obtain ⟨n, rest, hrest⟩ := ih h
    refine ⟨n + 1, rest, ?_⟩
    rw [← hrest, List.replicate_succ, List.flatten_cons]
    simp [closer]
  | case2 c cs hmark ih =>
    obtain rfl : c = '/' := Option.some.inj h
    exact ⟨0, cs, rfl⟩
  | case3 => cases h

/-- A mark is left exactly if there is one around others. -/
theorem closer_infix_withoutCloser_iff {cs : List Char} :
    closer <:+: withoutCloser cs ↔ ∃ n, closerAround (n + 1) <:+: cs := by
  constructor
  · intro h
    fun_induction withoutCloser cs with
    | case1 cs ih =>
      obtain ⟨n, hn⟩ := ih h
      exact ⟨n, hn.trans (List.suffix_append closer cs).isInfix⟩
    | case2 c cs hmark ih =>
      rcases List.infix_cons_iff.mp h with hfirst | hrest
      · obtain ⟨rfl, hhead⟩ := closer_prefix_iff.mp hfirst
        obtain ⟨n, hn⟩ := marks_prefix_of_head hhead
        cases n with
        | zero =>
          obtain ⟨rest, rfl⟩ := hn
          exact absurd rfl (hmark rest rfl)
        | succ n => exact ⟨n, (List.cons_prefix_cons.mpr ⟨rfl, hn⟩).isInfix⟩
      · obtain ⟨n, hn⟩ := ih hrest
        exact ⟨n, List.infix_cons hn⟩
    | case3 => simp [closer] at h
  · rintro ⟨n, before, after, rfl⟩
    have hhead : (closerAround (n + 1) ++ after).head? ≠ some '/' := by simp [closerAround]
    rw [List.append_assoc, withoutCloser_append before hhead, withoutCloser_closerAround]
    exact ⟨withoutCloser before, withoutCloser after, List.append_assoc ..⟩

def unwindNote (path : String) : List Char :=
  " UNWIND(".toList ++ (withoutCloser path.toList ++ ") ".toList)

theorem unwindNote_append (path : String) (rest : List Char) : unwindNote path ++ closer ++ rest =
    " UNWIND(".toList ++ (withoutCloser path.toList ++ (") */".toList ++ rest)) := by
  have hnote : unwindNote path =
      " UNWIND(".toList ++ (withoutCloser path.toList ++ ") ".toList) := rfl
  have hclosing : ") */".toList = ") ".toList ++ closer := rfl
  rw [hnote, hclosing]
  simp only [List.append_assoc]

theorem toList_unwindComment (path : String) :
    (unwindComment path).toList = '/' :: '*' :: (unwindNote path ++ closer) := by
  have htext : unwindComment path =
      "/* UNWIND(" ++ String.ofList (withoutCloser path.toList) ++ ") */" := rfl
  have hopening : "/* UNWIND(".toList = '/' :: '*' :: " UNWIND(".toList := rfl
  have hnote := unwindNote_append path []
  rw [List.append_nil, List.append_nil] at hnote
  rw [htext, hnote, String.toList_append, String.toList_append, hopening,
    String.toList_ofList (l := withoutCloser path.toList)]
  simp only [List.cons_append, List.append_assoc]

theorem closer_infix_unwindNote_iff {path : String} :
    closer <:+: unwindNote path ↔ closer <:+: withoutCloser path.toList := by
  have hopening : '*' ∉ " UNWIND(".toList := by decide
  have hclosing : '/' ∉ ") ".toList := by decide
  exact (closer_infix_append_left hopening).trans (closer_infix_append_right hclosing)

/-- No mark that ends a comment stands around others in the path. -/
def Clear (path : String) : Prop := ∀ n, ¬ closerAround (n + 1) <:+: path.toList

theorem clear_iff {path : String} : Clear path ↔ ¬ closer <:+: unwindNote path := by
  rw [closer_infix_unwindNote_iff, closer_infix_withoutCloser_iff, not_exists]
  rfl

theorem afterComment?_unwindComment (path : String) (rest : List Char) :
    afterComment? ((unwindComment path).toList ++ rest) =
      afterCloser? (unwindNote path ++ closer ++ rest) := by
  rw [toList_unwindComment]
  rfl

/-- In the comment of a clear path there is no mark before the one at the end. -/
theorem eq_nil_of_clear {path : String} (h : Clear path) {before after : List Char}
    (htext : (unwindComment path).toList = before ++ closer ++ after) : after = [] := by
  rw [toList_unwindComment] at htext
  match before with
  | [] => cases htext
  | [c] => cases htext
  | c :: d :: before =>
    have hnote : unwindNote path ++ closer ++ [] = before ++ closer ++ after := by
      simpa using (List.cons.inj (List.cons.inj htext).2).2
    have hend := afterCloser?_of_not_infix (clear_iff.mp h) []
    obtain ⟨more, hmore⟩ := afterCloser?_of_mark before after
    rw [hnote, hmore] at hend
    exact (List.append_eq_nil_iff.mp (Option.some.inj hend)).2

/-- The stage adds a comment to the plan. The mark that ends it stands only at its end exactly if
the path is clear, and a reader then goes on with what follows the comment. Otherwise the reader
goes on with a part of the path. -/
theorem unwind_comment_closed_iff (scope : Scope) (table : String) (plan : Plan) (path : String)
    (j : Journal) :
    ∃ text, plan.step scope table (.unwind path) j =
        .ok { plan with comments := plan.comments ++ [text] } j ∧
      ((∀ before after, text.toList = before ++ closer ++ after → after = []) ↔ Clear path) ∧
      (Clear path → ∀ rest, afterComment? (text.toList ++ rest) = some rest) ∧
      (¬ Clear path → ∃ left, left <:+ withoutCloser path.toList ∧
        ∀ rest, afterComment? (text.toList ++ rest) = some (left ++ ") */".toList ++ rest)) := by
  refine ⟨unwindComment path, rfl, ⟨fun hlast => ?_, fun hclear _ _ => eq_nil_of_clear hclear⟩,
    fun hclear rest => ?_, fun hnot => ?_⟩
  · rw [clear_iff]
    rintro ⟨before, after, hnote⟩
    have htext : (unwindComment path).toList =
        ('/' :: '*' :: before) ++ closer ++ (after ++ closer) := by
      rw [toList_unwindComment, ← hnote]
      simp
    have hnil := hlast _ _ htext
    simp [closer] at hnil
  · rw [afterComment?_unwindComment]
    exact afterCloser?_of_not_infix (clear_iff.mp hclear) rest
  · rw [clear_iff, closer_infix_unwindNote_iff, ← afterCloser?_eq_none_iff] at hnot
    obtain ⟨left, hleft⟩ := Option.ne_none_iff_exists'.mp hnot
    refine ⟨left, suffix_of_afterCloser? hleft, fun rest => ?_⟩
    have hopening : '*' ∉ " UNWIND(".toList := by decide
    rw [afterComment?_unwindComment, unwindNote_append, afterCloser?_of_not_mem hopening,
      afterCloser?_append hleft, List.append_assoc]

/-- With a mark around another one in the path, the comment is over before its last characters. -/
theorem nested_closer_ends_comment : ¬ Clear "**//" ∧
    ¬ (∀ before after, "/* UNWIND(*/) */".toList = before ++ closer ++ after → after = []) ∧
    ∃ left, ∀ rest, afterComment? ("/* UNWIND(*/) */".toList ++ rest) =
      some (left ++ ") */".toList ++ rest) := by
  have hnot : ¬ Clear "**//" := fun hclear => hclear 0 (by decide)
  obtain ⟨text, hstep, hlast, -, hleft⟩ :=
    unwind_comment_closed_iff ⟨{}, fun _ => throw .unfit⟩ "t" {} "**//" {}
  have hcomments : [unwindComment "**//"] = [text] :=
    congrArg Plan.comments (EStateM.Result.ok.inj hstep).1
  obtain rfl : "/* UNWIND(*/) */" = text := (List.cons.inj hcomments).1
  obtain ⟨left, -, hrest⟩ := hleft hnot
  exact ⟨hnot, fun hend => hnot (hlast.mp hend), left, hrest⟩

end Plan

end BoundQuery
