import BoundQuery.Dialect
import BoundQuery.Event

/-! Placeholders and the values bound to them. A text is aligned with a list of values if it can
be cut into pieces without placeholders and single placeholders, such that the values are those
of the placeholders from left to right. -/
namespace BoundQuery

def Text.Lacks (c : Char) (s : String) : Prop := c ∉ s.toList

instance (c : Char) (s : String) : Decidable (Text.Lacks c s) :=
  inferInstanceAs (Decidable (c ∉ s.toList))

namespace Text.Lacks

variable {c : Char} {s t : String}

@[simp] theorem append_iff : Lacks c (s ++ t) ↔ Lacks c s ∧ Lacks c t := by
  simp [Lacks]

end Text.Lacks

abbrev NoPlaceholder (s : String) : Prop := Text.Lacks '?' s

/-- A part of a statement: text without a placeholder, or the value of one. -/
inductive Piece where
  | text (s : String) (plain : NoPlaceholder s)
  | value (v : Value)

namespace Piece

def written : Piece → String
  | text s _ => s
  | value _ => "?"

def bound : Piece → List Value
  | text _ _ => []
  | value v => [v]

def sql (pieces : List Piece) : String := String.join (pieces.map written)

def params (pieces : List Piece) : List Value := pieces.flatMap bound

@[simp] theorem sql_nil : sql [] = "" := rfl

@[simp] theorem sql_cons (p : Piece) (ps : List Piece) : sql (p :: ps) = p.written ++ sql ps := by
  simp [sql, String.join_cons]

theorem sql_append (ps qs : List Piece) : sql (ps ++ qs) = sql ps ++ sql qs := by
  induction ps with
  | nil => simp
  | cons p ps ih => simp [ih, String.append_assoc]

theorem params_append (ps qs : List Piece) : params (ps ++ qs) = params ps ++ params qs := by
  simp [params]

end Piece

/-- The values are those of the placeholders in the text, from left to right. -/
def Aligned (sql : String) (params : List Value) : Prop :=
  ∃ pieces : List Piece, Piece.sql pieces = sql ∧ Piece.params pieces = params

namespace Aligned

variable {s t : String} {vs ws : List Value}

theorem text (h : NoPlaceholder s) : Aligned s [] := by
  refine ⟨[.text s h], ?_, rfl⟩
  simp [Piece.written]

theorem placeholder (v : Value) : Aligned "?" [v] := ⟨[.value v], rfl, rfl⟩

theorem append (hs : Aligned s vs) (ht : Aligned t ws) : Aligned (s ++ t) (vs ++ ws) := by
  obtain ⟨ps, rfl, rfl⟩ := hs
  obtain ⟨qs, rfl, rfl⟩ := ht
  exact ⟨ps ++ qs, Piece.sql_append ps qs, Piece.params_append ps qs⟩

/-- As many placeholders as values. -/
theorem count_eq_length (h : Aligned s vs) : s.toList.count '?' = vs.length := by
  obtain ⟨ps, rfl, rfl⟩ := h
  induction ps with
  | nil => rfl
  | cons p ps ih =>
    have hp : p.written.toList.count '?' = p.bound.length := by
      cases p with
      | text s plain => exact List.count_eq_zero.mpr plain
      | value v =>
        show List.count '?' "?".toList = 1
        decide
    rw [Piece.sql_cons, String.toList_append, List.count_append, hp, ih]
    simp [Piece.params]

end Aligned

end BoundQuery
