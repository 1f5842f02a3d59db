import CodeProse.Proofs.Text.Lines
import Mathlib.Data.List.Forall2

/-!
# Rows within rows

Rows stand within others if each of them is a part of one of those, in the same order and with none
left out between two of them. Cutting a text at its ends leaves its lines within those it had.
-/

set_option autoImplicit false

namespace CodeProse.Text

/-- Whether rows are parts of consecutive ones among some others, in order. -/
def RowsWithin (inner outer : List Text) : Prop :=
  ∃ rows, List.Forall₂ (fun part row : Text => part <:+: row) inner rows ∧ rows <:+: outer

namespace RowsWithin

variable {inner middle outer : List Text}

theorem of_forall₂ (parts : List.Forall₂ (fun part row : Text => part <:+: row) inner outer) :
    RowsWithin inner outer :=
  ⟨outer, parts, List.infix_refl outer⟩

theorem of_isInfix (within : inner <:+: outer) : RowsWithin inner outer :=
  ⟨inner, List.forall₂_same.mpr fun row _ => List.infix_refl row, within⟩

/-- Consecutive rows among some that are aligned with others have consecutive partners there. -/
theorem exists_partners {aligned : Text → Text → Prop} {rows : List Text}
    (within : rows <:+: middle) (both : List.Forall₂ aligned middle outer) :
    ∃ partners, List.Forall₂ aligned rows partners ∧ partners <:+: outer := by
  obtain ⟨front, back, rfl⟩ := within
  have cut := List.forall₂_drop front.length (List.forall₂_take (front.length + rows.length) both)
  rw [← List.length_append, List.take_left, List.drop_left] at cut
  exact ⟨_, cut, (List.drop_suffix _ _).isInfix.trans (List.take_prefix _ outer).isInfix⟩

theorem trans (first : RowsWithin inner middle) (second : RowsWithin middle outer) :
    RowsWithin inner outer := by
  obtain ⟨rows, parts, within⟩ := first
  obtain ⟨wider, partsOfWider, widerWithin⟩ := second
  obtain ⟨partners, partsOfPartners, partnersWithin⟩ := exists_partners within partsOfWider
  refine ⟨partners, ?_, partnersWithin.trans widerWithin⟩
  exact forall₂_compose (fun _ _ _ part further => part.trans further) parts partsOfPartners

theorem eq_nil (within : RowsWithin inner []) : inner = [] := by
  obtain ⟨rows, parts, none⟩ := within
  rw [List.infix_nil.mp none] at parts
  exact List.forall₂_nil_right_iff.mp parts

/-- The row that the first part stands in, and the rows behind it that the other parts stand
within. -/
theorem exists_row {part : Text} {parts : List Text} (within : RowsWithin (part :: parts) outer) :
    ∃ place < outer.length, part <:+: outer.getD place [] ∧
      ∀ earlier ≤ place, RowsWithin parts (outer.drop (earlier + 1)) := by
  obtain ⟨rows, partsOf, front, back, rfl⟩ := within
  cases partsOf with
  | @cons _ row _ rows here further =>
      refine ⟨front.length, by simp, by simpa using here, fun earlier before => ?_⟩
      refine ⟨rows, further, ?_⟩
      have behind : (front ++ row :: rows ++ back).drop (earlier + 1) =
          front.drop (earlier + 1) ++ (row :: rows ++ back).drop (earlier + 1 - front.length) := by
        rw [List.append_assoc, List.drop_append]
      rw [behind]
      rcases Nat.lt_or_eq_of_le before with early | same
      · have none : earlier + 1 - front.length = 0 := by omega
        rw [none, List.drop_zero]
        exact ⟨front.drop (earlier + 1) ++ [row], back, by simp⟩
      · have one : earlier + 1 - front.length = 1 := by omega
        rw [one]
        exact ⟨front.drop (earlier + 1), back, by simp⟩

end RowsWithin

section Lines

theorem exists_lines_append (front back : Text) :
    ∃ rows further, lines (front ++ back) = rows ++ further ∧
      List.Forall₂ (fun part row : Text => part <+: row) (lines front) rows := by
  induction front with
  | nil =>
      obtain ⟨first, further, split⟩ := exists_lines_eq_cons back
      exact ⟨[first], further, split, .cons List.nil_prefix .nil⟩
  | cons char rest ih =>
      obtain ⟨rows, further, split, fronts⟩ := ih
      rw [List.cons_append]
      by_cases feed : char = '\n'
      · subst feed
        refine ⟨[] :: rows, further, ?_, ?_⟩
        · rw [lines_lineFeed_cons, split, List.cons_append]
        · rw [lines_lineFeed_cons]
          exact .cons (List.prefix_refl []) fronts
      · rw [lines_cons feed, lines_cons feed, split]
        obtain ⟨part, parts, shape⟩ := exists_lines_eq_cons rest
        rw [shape] at fronts ⊢
        cases fronts with
        | @cons _ row _ rows here later =>
            refine ⟨(char :: row) :: rows, further, rfl, ?_⟩
            exact .cons ((List.prefix_cons_inj char).mpr here) later

variable {part text : Text}

theorem forall₂_infix_of_fronts {parts rows : List Text}
    (fronts : List.Forall₂ (fun part row : Text => part <+: row) parts rows) :
    List.Forall₂ (fun part row : Text => part <:+: row) parts rows :=
  fronts.imp fun _ _ front => front.isInfix

theorem rowsWithin_of_front (front : part <+: text) : RowsWithin (lines part) (lines text) := by
  obtain ⟨back, rfl⟩ := front
  obtain ⟨rows, further, split, fronts⟩ := exists_lines_append part back
  exact ⟨rows, forall₂_infix_of_fronts fronts, split ▸ (List.prefix_append rows further).isInfix⟩

theorem rowsWithin_cons (char : CodePoint) (text : Text) :
    RowsWithin (lines text) (lines (char :: text)) := by
  by_cases feed : char = '\n'
  · rw [feed, lines_lineFeed_cons]
    exact .of_isInfix (List.suffix_cons [] _).isInfix
  · obtain ⟨first, further, split⟩ := exists_lines_eq_cons text
    rw [lines_cons feed, split, List.modifyHead_cons]
    refine .of_forall₂ (.cons (List.suffix_cons char first).isInfix ?_)
    exact List.forall₂_same.mpr fun row _ => List.infix_refl row

theorem rowsWithin_of_suffix (back : part <:+ text) : RowsWithin (lines part) (lines text) := by
  obtain ⟨front, rfl⟩ := back
  induction front with
  | nil => exact .of_isInfix (List.infix_refl _)
  | cons char rest ih => exact ih.trans (rowsWithin_cons char (rest ++ part))

theorem rowsWithin_of_isInfix (within : part <:+: text) :
    RowsWithin (lines part) (lines text) := by
  obtain ⟨front, back, rfl⟩ := within
  exact (rowsWithin_of_suffix (List.suffix_append front part)).trans
    (rowsWithin_of_front (List.prefix_append (front ++ part) back))

/-- A front with a line feed put behind it: where what it was cut from went on over a line feed, the
empty line behind the front is within the line that follows there. -/
theorem rowsWithin_of_lineFeed (front : Text) {back : Text} (feed : .scalar '\n' ∈ back) :
    RowsWithin (lines (front ++ [.scalar '\n'])) (lines (front ++ back)) := by
  obtain ⟨gap, rest, rfl⟩ := List.append_of_mem feed
  obtain ⟨rows, further, split, fronts⟩ := exists_lines_append front gap
  obtain ⟨next, others, behind⟩ := List.exists_cons_of_ne_nil
    (List.append_ne_nil_of_right_ne_nil further (lines_ne_nil rest))
  rw [lines_append_lineFeed_cons, ← List.append_assoc, lines_append_lineFeed_cons, split,
    List.append_assoc, behind, lines_nil]
  refine ⟨rows ++ [next], ?_, ?_⟩
  · exact List.rel_append (forall₂_infix_of_fronts fronts) (.cons (List.nil_infix) .nil)
  · exact ⟨[], others, by simp⟩

end Lines

end CodeProse.Text
