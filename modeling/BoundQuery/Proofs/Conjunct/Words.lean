import BoundQuery.Proofs.Discipline.Basic

/-! The words of a text outside all parentheses, and the conjuncts that the words `AND` among them
leave. What stands in parentheses is part of one word, so that a condition in parentheses cannot be
taken apart. -/
namespace BoundQuery.Text

/-- The text cut at the spaces at depth zero, where it starts at depth `d`. -/
def wordsAt (d : Nat) : List Char → List (List Char)
  | [] => [[]]
  | c :: cs =>
    if c = ' ' ∧ d = 0 then [] :: wordsAt d cs
    else (wordsAt ((deeper d c).getD d) cs).modifyHead (c :: ·)

/-- The pieces between the spaces that stand in no parentheses. -/
def outerWords (s : String) : List String := (wordsAt 0 s.toList).map String.ofList

/-- The texts between the words `AND` that stand in no parentheses. -/
def conjuncts (s : String) : List String :=
  ((outerWords s).splitOn "AND").map fun words => " ".intercalate words

/-- Joined by no `AND` and no `OR` outside of parentheses. -/
structure Unjoined (s : String) : Prop where
  balanced : Balanced s
  and : "AND" ∉ outerWords s
  or : "OR" ∉ outerWords s

instance (s : String) : Decidable (Unjoined s) :=
  decidable_of_iff (Balanced s ∧ "AND" ∉ outerWords s ∧ "OR" ∉ outerWords s)
    ⟨fun h => ⟨h.1, h.2.1, h.2.2⟩, fun h => ⟨h.balanced, h.and, h.or⟩⟩

/-- Conditions with `AND` between them, each in one piece. -/
def Conjoined (s : String) : Prop :=
  ∃ parts, parts ≠ [] ∧ (∀ part ∈ parts, Unjoined part) ∧ s = " AND ".intercalate parts

section Scan

variable {d e : Nat} {cs ds : List Char}

theorem wordsAt_ne_nil : wordsAt d cs ≠ [] := by
  induction cs generalizing d with
  | nil => simp [wordsAt]
  | cons c cs ih =>
    unfold wordsAt
    split
    · simp
    · simpa using ih

theorem modifyHead_append {α : Type} {f : α → α} {xs ys : List α} (h : xs ≠ []) :
    (xs ++ ys).modifyHead f = xs.modifyHead f ++ ys := by
  cases xs with
  | nil => exact absurd rfl h
  | cons x xs => rfl

/-- A space at depth zero ends a word. -/
theorem wordsAt_append (h : nesting d cs = some 0) :
    wordsAt d (cs ++ ' ' :: ds) = wordsAt d cs ++ wordsAt 0 ds := by
  induction cs generalizing d with
  | nil =>
    obtain rfl := Option.some.inj h
    simp [wordsAt]
  | cons c cs ih =>
    rw [nesting_cons] at h
    obtain ⟨m, hm, hrest⟩ := Option.bind_eq_some_iff.mp h
    rw [List.cons_append, wordsAt, wordsAt]
    split
    · rename_i hspace
      obtain rfl : m = d := by simpa [hspace.1, deeper] using hm.symm
      rw [ih hrest, List.cons_append]
    · rw [hm, Option.getD_some, ih hrest, modifyHead_append wordsAt_ne_nil]

/-- Below depth zero there is no end of a word. -/
theorem wordsAt_deep (h : nesting d cs = some e) :
    wordsAt (d + 1) (cs ++ ds) = (wordsAt (e + 1) ds).modifyHead (cs ++ ·) := by
  induction cs generalizing d with
  | nil =>
    obtain rfl := Option.some.inj h
    exact (congrFun List.modifyHead_id _).symm
  | cons c cs ih =>
    rw [nesting_cons] at h
    obtain ⟨m, hm, hrest⟩ := Option.bind_eq_some_iff.mp h
    have hshift : deeper (d + 1) c = some (m + 1) := by
      unfold deeper at hm ⊢
      grind
    rw [List.cons_append, wordsAt, if_neg (by simp), hshift, Option.getD_some, ih hrest,
      List.modifyHead_modifyHead]
    rfl

/-- Without a space or a parenthesis, a text is the start of a word. -/
theorem wordsAt_start (hopen : '(' ∉ cs) (hclose : ')' ∉ cs) (hspace : ' ' ∉ cs) :
    wordsAt d (cs ++ ds) = (wordsAt d ds).modifyHead (cs ++ ·) := by
  induction cs with
  | nil => exact (congrFun List.modifyHead_id _).symm
  | cons c cs ih =>
    rw [List.mem_cons, not_or] at hopen hclose hspace
    have hdepth : deeper d c = some d := deeper_of_neither (Ne.symm hopen.1) (Ne.symm hclose.1)
    rw [List.cons_append, wordsAt, if_neg fun h => hspace.1 h.1.symm, hdepth, Option.getD_some,
      ih hopen.2 hclose.2 hspace.2, List.modifyHead_modifyHead]
    rfl

theorem intercalate_wordsAt : [' '].intercalate (wordsAt d cs) = cs := by
  induction cs generalizing d with
  | nil => simp [wordsAt]
  | cons c cs ih =>
    unfold wordsAt
    split
    · rename_i hspace
      have hne : wordsAt d cs ≠ [] := wordsAt_ne_nil
      obtain ⟨w, ws, hws⟩ := List.exists_cons_of_ne_nil hne
      have hcs := ih (d := d)
      rw [hws] at hcs ⊢
      rw [List.intercalate_cons_cons, hcs, hspace.1]
      rfl
    · have hcs := ih (d := (deeper d c).getD d)
      cases hws : wordsAt ((deeper d c).getD d) cs with
      | nil => exact absurd hws wordsAt_ne_nil
      | cons w ws =>
        rw [hws] at hcs
        cases ws with
        | nil => simpa using hcs
        | cons v ws =>
          rw [List.intercalate_cons_cons] at hcs
          rw [List.modifyHead_cons, List.intercalate_cons_cons, List.cons_append, List.cons_append,
            hcs]

end Scan

variable {s t : String}

theorem outerWords_append (hs : Balanced s) :
    outerWords (s ++ " " ++ t) = outerWords s ++ outerWords t := by
  have hlist : (s ++ " " ++ t).toList = s.toList ++ ' ' :: t.toList := by simp
  rw [outerWords, hlist, wordsAt_append hs, List.map_append]
  rfl

theorem intercalate_outerWords (s : String) : " ".intercalate (outerWords s) = s := by
  rw [← String.toList_inj, String.toList_intercalate, outerWords, List.map_map]
  have hwords : (wordsAt 0 s.toList).map (String.toList ∘ String.ofList) = wordsAt 0 s.toList := by
    simp [Function.comp_def]
  rw [hwords]
  exact intercalate_wordsAt

/-- A text in parentheses is one word, with what stands right before it. -/
theorem outerWords_enclosed {before : String} (hb : ParenFree before) (hspace : Lacks ' ' before)
    (hs : Balanced s) : outerWords (before ++ "(" ++ s ++ ")") = [before ++ "(" ++ s ++ ")"] := by
  have hlist : (before ++ "(" ++ s ++ ")").toList =
      before.toList ++ '(' :: (s.toList ++ [')']) := by simp
  have hinner : wordsAt 0 ('(' :: (s.toList ++ [')'])) = ['(' :: (s.toList ++ [')'])] := by
    rw [wordsAt, if_neg (by decide)]
    have hdepth : (deeper 0 '(').getD 0 = 0 + 1 := rfl
    rw [hdepth, wordsAt_deep hs]
    rfl
  rw [outerWords, hlist, wordsAt_start hb.1 hb.2 hspace, hinner, List.modifyHead_cons,
    List.map_singleton, ← hlist, String.ofList_toList]

theorem outerWords_word (hs : ParenFree s) (hspace : Lacks ' ' s) : outerWords s = [s] := by
  have hword : wordsAt 0 (s.toList ++ []) = (wordsAt 0 []).modifyHead (s.toList ++ ·) :=
    wordsAt_start hs.1 hs.2 hspace
  rw [List.append_nil] at hword
  rw [outerWords, hword]
  simp [wordsAt]

/-- What stands between spaces, with nothing open before it, is an outer word. -/
theorem mem_outerWords {before word after : String} (hb : Balanced before) (hw : ParenFree word)
    (hspace : Lacks ' ' word) : word ∈ outerWords (before ++ " " ++ word ++ " " ++ after) := by
  have hwords : outerWords (before ++ " " ++ word ++ " " ++ after) =
      outerWords before ++ (outerWords word ++ outerWords after) := by
    rw [String.append_assoc, String.append_assoc, outerWords_append hb, ← String.append_assoc,
      outerWords_append hw.balanced]
  rw [hwords, outerWords_word hw hspace]
  simp

theorem outerWords_and (hs : Balanced s) :
    outerWords (s ++ " AND " ++ t) = outerWords s ++ "AND" :: outerWords t := by
  have hsplit : s ++ " AND " ++ t = s ++ " " ++ ("AND" ++ " " ++ t) := by
    rw [String.append_assoc, String.append_assoc, String.append_assoc]
    rfl
  have hword : outerWords "AND" = ["AND"] := outerWords_word (by decide) (by decide)
  rw [hsplit, outerWords_append hs, outerWords_append (by decide), hword]
  rfl

theorem conjuncts_append (hs : Balanced s) :
    conjuncts (s ++ " AND " ++ t) = conjuncts s ++ conjuncts t := by
  rw [conjuncts, outerWords_and hs, List.splitOn_append_cons_self, List.map_append]
  rfl

/-- The conjuncts of conditions with `AND` between them are those of each condition. -/
theorem conjuncts_intercalate {ss : List String} (h : ∀ s ∈ ss, Balanced s) (hne : ss ≠ []) :
    conjuncts (" AND ".intercalate ss) = ss.flatMap conjuncts := by
  induction ss with
  | nil => exact absurd rfl hne
  | cons s ss ih =>
    cases ss with
    | nil => simp
    | cons t ss =>
      rw [String.intercalate_cons_cons, conjuncts_append (h s List.mem_cons_self),
        ih (fun u hu => h u (List.mem_cons_of_mem s hu)) (by simp)]
      rfl

example : conjuncts "(a OR b) AND NOT (c AND d) AND e IN (f, g)" =
    ["(a OR b)", "NOT (c AND d)", "e IN (f, g)"] := by decide

namespace Unjoined

theorem conjuncts_eq (h : Unjoined s) : conjuncts s = [s] := by
  rw [conjuncts, List.splitOn_eq_singleton h.and, List.map_singleton, intercalate_outerWords]

theorem append (hs : Unjoined s) (ht : Unjoined t) : Unjoined (s ++ " " ++ t) where
  balanced := (hs.balanced.append (by decide)).append ht.balanced
  and := by
    rw [outerWords_append hs.balanced, List.mem_append, not_or]
    exact ⟨hs.and, ht.and⟩
  or := by
    rw [outerWords_append hs.balanced, List.mem_append, not_or]
    exact ⟨hs.or, ht.or⟩

theorem word (hs : ParenFree s) (hspace : Lacks ' ' s) (hand : s ≠ "AND") (hor : s ≠ "OR") :
    Unjoined s where
  balanced := hs.balanced
  and := by
    rw [outerWords_word hs hspace, List.mem_singleton]
    exact hand.symm
  or := by
    rw [outerWords_word hs hspace, List.mem_singleton]
    exact hor.symm

theorem enclosed {before : String} (hb : ParenFree before) (hspace : Lacks ' ' before)
    (hs : Balanced s) : Unjoined (before ++ "(" ++ s ++ ")") := by
  have hopen : '(' ∈ (before ++ "(" ++ s ++ ")").toList := by simp
  have hbalanced : Balanced (before ++ "(" ++ s ++ ")") := by
    have hassoc : before ++ "(" ++ s ++ ")" = before ++ ("(" ++ s ++ ")") := by
      simp only [String.append_assoc]
    exact hassoc ▸ hb.balanced.append hs.enclosed
  refine ⟨hbalanced, ?_, ?_⟩
  · rw [outerWords_enclosed hb hspace hs, List.mem_singleton]
    intro he
    rw [← he] at hopen
    exact absurd hopen (by decide)
  · rw [outerWords_enclosed hb hspace hs, List.mem_singleton]
    intro he
    rw [← he] at hopen
    exact absurd hopen (by decide)

theorem conjoined (h : Unjoined s) : Conjoined s :=
  ⟨[s], by simp, by simpa using h, by simp⟩

end Unjoined

theorem Balanced.leads (h : Balanced s) : Discipline.balanced.Leads 0 0 s :=
  fun d => nesting_shift d h

theorem Balanced.intercalate {separator : String} (hseparator : Balanced separator)
    {ss : List String} (h : ∀ s ∈ ss, Balanced s) : Balanced (separator.intercalate ss) :=
  intercalate_induction (by decide) .append hseparator h

namespace Conjoined

theorem balanced (h : Conjoined s) : Balanced s := by
  obtain ⟨parts, -, hparts, rfl⟩ := h
  exact Balanced.intercalate (by decide) fun part hpart => (hparts part hpart).balanced

/-- The conjuncts are the parts. -/
theorem conjuncts_spec (h : Conjoined s) :
    " AND ".intercalate (conjuncts s) = s ∧ ∀ part ∈ conjuncts s, Unjoined part := by
  obtain ⟨parts, hne, hparts, rfl⟩ := h
  have hflat : ∀ ps : List String, (∀ part ∈ ps, Unjoined part) → ps.flatMap conjuncts = ps := by
    intro ps hps
    induction ps with
    | nil => rfl
    | cons part ps ih =>
      rw [List.flatMap_cons, (hps part List.mem_cons_self).conjuncts_eq,
        ih fun p hp => hps p (List.mem_cons_of_mem part hp)]
      rfl
  rw [conjuncts_intercalate (fun part hpart => (hparts part hpart).balanced) hne,
    hflat parts hparts]
  exact ⟨rfl, hparts⟩

/-- Between balanced parts no `OR` is added. -/
theorem or_not_mem (h : Conjoined s) : "OR" ∉ outerWords s := by
  obtain ⟨parts, hne, hparts, rfl⟩ := h
  induction parts with
  | nil => exact absurd rfl hne
  | cons part parts ih =>
    have hpart := hparts part List.mem_cons_self
    cases parts with
    | nil => simpa using hpart.or
    | cons next parts =>
      have hrest := ih (by simp) fun p hp => hparts p (List.mem_cons_of_mem part hp)
      rw [String.intercalate_cons_cons, outerWords_and hpart.balanced, List.mem_append,
        List.mem_cons, not_or, not_or]
      exact ⟨hpart.or, by decide, hrest⟩

/-- Nothing at depth zero stands before an `OR` between spaces. -/
theorem not_balanced_before_or (h : Conjoined s) (before after : String)
    (hs : s = before ++ " OR " ++ after) : ¬ Balanced before := by
  intro hb
  have hword : before ++ " OR " ++ after = before ++ " " ++ "OR" ++ " " ++ after := by
    simp only [String.append_assoc]
    rfl
  refine h.or_not_mem ?_
  rw [hs, hword]
  exact mem_outerWords hb (by decide) (by decide)

theorem join {ss : List String} (hne : ss ≠ []) (h : ∀ s ∈ ss, Conjoined s) :
    Conjoined (" AND ".intercalate ss) := by
  induction ss with
  | nil => exact absurd rfl hne
  | cons s ss ih =>
    have hfirst := h s List.mem_cons_self
    cases ss with
    | nil => simpa using hfirst
    | cons t ss =>
      obtain ⟨parts, hparts, hunjoined, rfl⟩ := hfirst
      obtain ⟨rest, hrest, hunjoined', heq⟩ :=
        ih (by simp) fun u hu => h u (List.mem_cons_of_mem _ hu)
      refine ⟨parts ++ rest, by simp [hparts],
        List.forall_mem_append.mpr ⟨hunjoined, hunjoined'⟩, ?_⟩
      rw [String.intercalate_cons_cons, heq, String.intercalate_append_of_ne_nil hparts hrest]

end Conjoined

/-- What conditions come to together: nothing if there are none, else a text with `AND` between
them. Outside of parentheses it consists of the conjuncts of the conditions, with no `OR`. -/
inductive Joins : List String → Option String → Prop where
  | none : Joins [] none
  | some {conditions : List String} {text : String} (nonempty : conditions ≠ [])
      (joined : text = " AND ".intercalate conditions) (balanced : Balanced text)
      (split : conjuncts text = conditions.flatMap conjuncts) (or : "OR" ∉ outerWords text) :
      Joins conditions (some text)

theorem Joins.of_conjoined {conditions : List String} (hne : conditions ≠ [])
    (h : ∀ s ∈ conditions, Conjoined s) :
    Joins conditions (Option.some (" AND ".intercalate conditions)) := by
  have hjoined := Conjoined.join hne h
  exact .some hne rfl hjoined.balanced
    (conjuncts_intercalate (fun s hs => (h s hs).balanced) hne) hjoined.or_not_mem

end BoundQuery.Text
