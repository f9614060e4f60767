import BoundQuery.Proofs.Fragment
import BoundQuery.Proofs.Placeholder

/-! What texts keep to when they are put together: a discipline says which texts may be taken as
they were given, and what holds of a text and its values between two depths of parentheses. Two
disciplines matter here. The values can stand in the order of their placeholders, and every
parenthesis can be closed, none before it is open. -/
namespace BoundQuery

namespace Text

/-- The depth of parentheses after a character, if the character closes none that is not open. -/
def deeper (d : Nat) (c : Char) : Option Nat :=
  if c = '(' then some (d + 1)
  else if c = ')' then if d = 0 then none else some (d - 1)
  else some d

/-- The depth after a text that starts at depth `d`, if it never closes below zero. -/
def nesting (d : Nat) (cs : List Char) : Option Nat := cs.foldlM deeper d

/-- Every parenthesis is closed, and none before it is open. -/
def Balanced (s : String) : Prop := nesting 0 s.toList = some 0

instance (s : String) : Decidable (Balanced s) :=
  inferInstanceAs (Decidable (nesting 0 s.toList = some 0))

def ParenFree (s : String) : Prop := Lacks '(' s ∧ Lacks ')' s

instance (s : String) : Decidable (ParenFree s) :=
  inferInstanceAs (Decidable (Lacks '(' s ∧ Lacks ')' s))

def Neutral (c : Char) : Prop := c ≠ '?' ∧ c ≠ '(' ∧ c ≠ ')'

instance (c : Char) : Decidable (Neutral c) :=
  inferInstanceAs (Decidable (c ≠ '?' ∧ c ≠ '(' ∧ c ≠ ')'))

def Fixed (s : String) : Prop := ∀ c ∈ s.toList, Neutral c

instance (s : String) : Decidable (Fixed s) := List.decidableBAll Neutral s.toList

variable {d e f : Nat} {cs ds : List Char}

@[simp] theorem nesting_nil : nesting d [] = some d := rfl

@[simp] theorem nesting_cons (c : Char) :
    nesting d (c :: cs) = (deeper d c).bind (nesting · cs) := by
  simp [nesting, List.foldlM_cons]

theorem nesting_append (hc : nesting d cs = some e) (hd : nesting e ds = some f) :
    nesting d (cs ++ ds) = some f := by
  unfold nesting at *
  rw [List.foldlM_append, hc]
  exact hd

theorem deeper_of_neither {c : Char} (hopen : c ≠ '(') (hclose : c ≠ ')') :
    deeper d c = some d := by
  simp [deeper, hopen, hclose]

theorem nesting_of_parenFree (hopen : '(' ∉ cs) (hclose : ')' ∉ cs) : nesting d cs = some d := by
  induction cs with
  | nil => rfl
  | cons c cs ih =>
    rw [List.mem_cons, not_or] at hopen hclose
    rw [nesting_cons, deeper_of_neither (Ne.symm hopen.1) (Ne.symm hclose.1)]
    exact ih hopen.2 hclose.2

/-- What is well nested stays so deeper down. -/
theorem nesting_shift (k : Nat) (h : nesting d cs = some e) :
    nesting (k + d) cs = some (k + e) := by
  induction cs generalizing d with
  | nil =>
    obtain rfl := Option.some.inj h
    rfl
  | cons c cs ih =>
    rw [nesting_cons] at h ⊢
    obtain ⟨m, hm, hrest⟩ := Option.bind_eq_some_iff.mp h
    have hshift : deeper (k + d) c = some (k + m) := by
      unfold deeper at hm ⊢
      grind
    rw [hshift]
    exact ih hrest

theorem ParenFree.balanced {s : String} (h : ParenFree s) : Balanced s :=
  nesting_of_parenFree h.1 h.2

theorem Balanced.append {s t : String} (hs : Balanced s) (ht : Balanced t) : Balanced (s ++ t) := by
  unfold Balanced
  rw [String.toList_append]
  exact nesting_append hs ht

theorem Balanced.enclosed {s : String} (hs : Balanced s) : Balanced ("(" ++ s ++ ")") := by
  unfold Balanced
  rw [String.toList_append, String.toList_append]
  exact nesting_append (nesting_append (e := 1) (by decide) (nesting_shift 1 hs)) (by decide)

/-- What passes from two texts to the one after the other passes to many with a text between them. -/
theorem intercalate_induction {P : String → Prop} (hempty : P "")
    (happend : ∀ {s t}, P s → P t → P (s ++ t)) {s : String} (hs : P s) {ss : List String}
    (h : ∀ t ∈ ss, P t) : P (s.intercalate ss) := by
  induction ss with
  | nil => exact hempty
  | cons t ss ih =>
    have hrest := ih fun u hu => h u (List.mem_cons_of_mem t hu)
    have hfirst := h t List.mem_cons_self
    cases ss with
    | nil => simpa using hfirst
    | cons u ss =>
      rw [String.intercalate_cons_cons]
      exact happend (happend hfirst hs) hrest

end Text

/-- Texts that may be taken as they were given, and what is to hold of a text and its values that
lead from one depth of parentheses to another. -/
structure Discipline where
  given : String → Prop
  holds : Nat → Nat → String → List Value → Prop
  given_empty : given ""
  given_append : ∀ {s t}, given s → given t → given (s ++ t)
  given_of : ∀ {s t : String}, given s → (∀ c ∈ t.toList, c ∈ s.toList ∨ Text.Neutral c) → given t
  text : ∀ {s} d, given s → holds d d s []
  value : ∀ d v, holds d d "?" [v]
  opening : ∀ d, holds d (d + 1) "(" []
  closing : ∀ d, holds (d + 1) d ")" []
  append : ∀ {d e f s t vs ws}, holds d e s vs → holds e f t ws → holds d f (s ++ t) (vs ++ ws)

namespace Discipline

def aligned : Discipline where
  given := NoPlaceholder
  holds _ _ := Aligned
  given_empty := by decide
  given_append hs ht := Text.Lacks.append_iff.mpr ⟨hs, ht⟩
  given_of hs h hc := (h _ hc).elim hs fun hneutral => hneutral.1 rfl
  text _ := Aligned.text
  value _ := Aligned.placeholder
  opening _ := .text (by decide)
  closing _ := .text (by decide)
  append := Aligned.append

def balanced : Discipline where
  given := Text.ParenFree
  holds d e s _ := Text.nesting d s.toList = some e
  given_empty := by decide
  given_append hs ht :=
    ⟨Text.Lacks.append_iff.mpr ⟨hs.1, ht.1⟩, Text.Lacks.append_iff.mpr ⟨hs.2, ht.2⟩⟩
  given_of hs h := ⟨fun hc => (h _ hc).elim hs.1 fun hneutral => hneutral.2.1 rfl,
    fun hc => (h _ hc).elim hs.2 fun hneutral => hneutral.2.2 rfl⟩
  text _ hs := Text.nesting_of_parenFree hs.1 hs.2
  value _ _ := Text.nesting_of_parenFree (by decide) (by decide)
  opening _ := by simp [Text.deeper]
  closing _ := by simp [Text.deeper]
  append hs ht := by
    rw [String.toList_append]
    exact Text.nesting_append hs ht

section Given

variable (D : Discipline) {s t : String}

theorem given_fixed (h : Text.Fixed s) : D.given s :=
  D.given_of D.given_empty fun c hc => .inr (h c hc)

theorem given_append_iff : D.given (s ++ t) ↔ D.given s ∧ D.given t := by
  refine ⟨fun h => ⟨D.given_of h ?_, D.given_of h ?_⟩, fun h => D.given_append h.1 h.2⟩
  · intro c hc
    simp [hc]
  · intro c hc
    simp [hc]

theorem given_intercalate (hs : D.given s) {ss : List String} (h : ∀ t ∈ ss, D.given t) :
    D.given (s.intercalate ss) :=
  Text.intercalate_induction D.given_empty D.given_append hs h

theorem given_ofList {cs : List Char} (hs : D.given s)
    (h : ∀ c ∈ cs, c ∈ s.toList ∨ Text.Neutral c) : D.given (String.ofList cs) :=
  D.given_of hs fun c hc => h c (by simpa using hc)

end Given

/-- A text without values that leads from depth `a` to depth `b`, at any depth. -/
def Leads (D : Discipline) (a b : Nat) (s : String) : Prop := ∀ d, D.holds (d + a) (d + b) s []

section Leads

variable {D : Discipline} {a b c : Nat} {s t : String}

theorem Leads.given (h : D.given s) : D.Leads a a s := fun _ => D.text _ h

theorem Leads.append (hs : D.Leads a b s) (ht : D.Leads b c t) : D.Leads a c (s ++ t) :=
  fun d => D.append (hs d) (ht d)

theorem Leads.singleton {x : Char} (hx : x ≠ '?') (h : Text.deeper a x = some b) :
    D.Leads a b (String.singleton x) := by
  intro d
  by_cases hopen : x = '('
  · subst hopen
    obtain rfl : a + 1 = b := by simpa [Text.deeper] using h
    exact D.opening (d + a)
  · by_cases hclose : x = ')'
    · subst hclose
      obtain ⟨hpos, rfl⟩ : a ≠ 0 ∧ a - 1 = b := by simpa [Text.deeper] using h
      obtain ⟨k, rfl⟩ := Nat.exists_eq_succ_of_ne_zero hpos
      exact D.closing (d + k)
    · obtain rfl : a = b := by simpa [Text.deeper_of_neither hopen hclose] using h
      refine D.text _ (D.given_fixed fun c hc => ?_)
      obtain rfl : c = x := by simpa using hc
      exact ⟨hx, hopen, hclose⟩

/-- A text that is fixed is read character by character. -/
theorem Leads.fixed (hs : NoPlaceholder s) (h : Text.nesting a s.toList = some b) :
    D.Leads a b s := by
  suffices hlist : ∀ cs : List Char, '?' ∉ cs → ∀ a, Text.nesting a cs = some b →
      D.Leads a b (String.ofList cs) by
    simpa using hlist s.toList hs a h
  intro cs hcs
  induction cs with
  | nil =>
    intro a ha
    obtain rfl := Option.some.inj ha
    exact .given D.given_empty
  | cons x cs ih =>
    intro a ha
    rw [List.mem_cons, not_or] at hcs
    rw [Text.nesting_cons] at ha
    obtain ⟨m, hm, hrest⟩ := Option.bind_eq_some_iff.mp ha
    have hfirst : D.Leads a m (String.singleton x) := .singleton (Ne.symm hcs.1) hm
    have hsplit : String.ofList (x :: cs) = String.singleton x ++ String.ofList cs := by
      rw [← String.toList_inj]
      simp
    exact hsplit ▸ hfirst.append (ih hcs.2 m hrest)

theorem Leads.intercalate (hs : D.Leads a a s) {ss : List String} (h : ∀ t ∈ ss, D.Leads a a t) :
    D.Leads a a (s.intercalate ss) :=
  Text.intercalate_induction (.given D.given_empty) .append hs h

end Leads

end Discipline

/-- At any depth, what the discipline asks for holds of the text and the values of the fragments. -/
def Fragments.Keeps (D : Discipline) (fs : Fragments) : Prop := ∀ d, D.holds d d fs.sql fs.params

namespace Fragments.Keeps

variable {D : Discipline} {fs gs : Fragments} {rows : List Fragments}

theorem leads {s : String} (h : D.Leads 0 0 s) : Keeps D [.text s] := by
  intro d
  simpa [Fragment.sql, Fragment.params] using h d

theorem text {s : String} (h : D.given s) : Keeps D [.text s] := leads (.given h)

theorem empty : Keeps D [] := fun d => D.text d D.given_empty

theorem value (v : Value) : Keeps D [.value v] := by
  intro d
  simpa [Fragment.sql, Fragment.params] using D.value d v

theorem whole {s : Statement} (h : ∀ d, D.holds d d s.sql s.params) : Keeps D [.whole s] := by
  intro d
  simpa [Fragment.sql, Fragment.params] using h d

theorem append (hf : fs.Keeps D) (hg : gs.Keeps D) : Keeps D (fs ++ gs) := by
  intro d
  simpa using D.append (hf d) (hg d)

/-- Between two texts of which the second closes what the first opens. -/
theorem around (hf : fs.Keeps D) {a : Nat} {before after : String} (hb : D.Leads 0 a before)
    (ha : D.Leads a 0 after) : (Fragments.around before fs after).Keeps D := by
  intro d
  simpa using D.append (D.append (hb d) (hf (d + a))) (ha d)

theorem joined (h : ∀ fs ∈ rows, fs.Keeps D) {separator : String} (hs : D.given separator) :
    (Fragments.joined separator rows).Keeps D := by
  fun_induction Fragments.joined separator rows with
  | case1 => exact empty
  | case2 fs => exact h fs List.mem_cons_self
  | case3 fs next rest ih =>
    have hrest := ih fun gs hg => h gs (List.mem_cons_of_mem _ hg)
    exact (h fs List.mem_cons_self).append ((text hs).append hrest)

theorem texts {ss : List String} (h : ∀ s ∈ ss, D.Leads 0 0 s) :
    ∀ fs ∈ Fragments.texts ss, fs.Keeps D := by
  intro fs hfs
  obtain ⟨s, hs, rfl⟩ := List.mem_map.mp hfs
  exact leads (h s hs)

theorem values (vs : List Value) : ∀ fs ∈ Fragments.values vs, fs.Keeps D := by
  intro fs hfs
  obtain ⟨v, -, rfl⟩ := List.mem_map.mp hfs
  exact value v

end Fragments.Keeps

end BoundQuery
