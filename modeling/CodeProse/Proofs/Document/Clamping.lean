import CodeProse.Document.Basic
import CodeProse.Proofs.Document.Extent
import Mathlib.Order.Hom.Basic

/-!
# Places inside and outside of a text

Inside a text, offsets and positions are two names for the same places, in one order. A position
outside is moved into the text, its line first. That keeps the order as long as the later position
stands on a line of the text; one below the last line is moved onto that line with the column that
it has, and so may come to stand in front of places that it lies behind.
-/

set_option autoImplicit false

namespace CodeProse

section Inside

/-- The places of a text, by their offsets and by their positions. -/
def places (text : Text) :
    Fin (text.length + 1) ≃o { position : Position // position.LiesIn text } where
  toFun offset :=
    ⟨positionAt text (offset : Nat), positionAt_liesIn (Nat.le_of_lt_succ offset.isLt)⟩
  invFun position :=
    ⟨offsetAt text position, Nat.lt_succ_of_le position.property.offsetAt_le_length⟩
  left_inv offset := Fin.ext (offsetAt_positionAt (Nat.le_of_lt_succ offset.isLt))
  right_inv position := Subtype.ext position.property.positionAt_offsetAt
  map_rel_iff' {left right} := by
    have leftWithin := Nat.le_of_lt_succ left.isLt
    have rightWithin := Nat.le_of_lt_succ right.isLt
    have same := (positionAt_liesIn leftWithin).offsetAt_le_iff (positionAt_liesIn rightWithin)
    rw [offsetAt_positionAt leftWithin, offsetAt_positionAt rightWithin] at same
    exact same.symm

/-- Offsets and the positions that lie in a text are in one order: the position of an offset and the
offset of a position lead from one to the other and back. The checked offset is that of a position
that lies in the text, and there is none for any other position. -/
theorem exists_places (text : Text) :
    ∃ places : Fin (text.length + 1) ≃o { position : Position // position.LiesIn text },
      (∀ offset, (places offset : Position) = positionAt text (offset : Nat)) ∧
        (∀ position, (places.symm position : Nat) = offsetAt text position) ∧
          ∀ position, checkedOffset? text position =
            if position.LiesIn text then some (offsetAt text position) else none := by
  refine ⟨places text, fun offset => rfl, fun position => rfl, fun position => ?_⟩
  split
  · next inside => exact inside.checkedOffset?
  · next outside =>
      rw [Option.eq_none_iff_forall_ne_some]
      exact fun offset checked => outside (checkedOffset?_eq_some_iff.mp checked).1

end Inside

section Moved

variable {text : Text} {left right : Position}

/-- A text ends on its last line, behind all of it. -/
theorem extent_eq (text : Text) : text.extent =
    ⟨(text.lines.length - 1 : Nat), lineLength text.lines (text.lines.length - 1)⟩ := by
  have inside : text.extent.LiesIn text := positionAt_liesIn (Nat.le_refl _)
  have ended : offsetAt text text.extent = text.length := offsetAt_positionAt (Nat.le_refl _)
  have known := inside.toNat_line_lt
  have height := inside.length_lines_take
  rw [ended, List.take_length] at height
  have line : text.extent.line.toNat = text.lines.length - 1 := by omega
  have last := lineStart_succ known
  rw [← height, lineStart_length (Text.lines_ne_nil text), Text.unlines_lines, line] at last
  rw [inside.offsetAt_eq, line] at ended
  have lineNonneg := inside.line_nonneg
  have columnNonneg := inside.column_nonneg
  generalize text.extent = final at line ended lineNonneg columnNonneg ⊢
  obtain ⟨finalLine, finalColumn⟩ := final
  rw [Position.mk.injEq]
  dsimp only at line ended lineNonneg columnNonneg
  omega

/-- The position moved into a text, its line first. -/
def Position.movedInto (text : Text) (position : Position) : Position :=
  let line := clampTo (text.lines.length - 1) position.line
  ⟨line, clampTo (lineLength text.lines line) position.column⟩

theorem Position.movedInto_liesIn (text : Text) (position : Position) :
    (position.movedInto text).LiesIn text where
  line_nonneg := Int.natCast_nonneg _
  line_lt := by
    have some := Text.length_lines_pos text
    simp only [movedInto, clampTo]
    omega
  column_nonneg := Int.natCast_nonneg _
  column_le := Int.ofNat_le.mpr (Nat.min_le_right _ _)

theorem offsetAt_movedInto (text : Text) (position : Position) :
    offsetAt text (position.movedInto text) = offsetAt text position := by
  rw [(position.movedInto_liesIn text).offsetAt_eq]
  rfl

/-- Offsets are in the order of the positions that were moved into the text. -/
theorem offsetAt_le_offsetAt_iff :
    offsetAt text left ≤ offsetAt text right ↔ left.movedInto text ≤ right.movedInto text := by
  rw [← offsetAt_movedInto text left, ← offsetAt_movedInto text right]
  exact (left.movedInto_liesIn text).offsetAt_le_iff (right.movedInto_liesIn text)

theorem clampTo_mono (limit : Nat) {left right : Int} (ordered : left ≤ right) :
    clampTo limit left ≤ clampTo limit right := by
  simp only [clampTo]
  omega

theorem clampTo_le_clampTo_iff {limit : Nat} {left right : Int} (nonneg : 0 ≤ right) :
    clampTo limit left ≤ clampTo limit right ↔ left ≤ right ∨ (limit : Int) ≤ right := by
  simp only [clampTo]
  omega

theorem movedInto_le_of_line_lt
    (before : clampTo (text.lines.length - 1) left.line <
      clampTo (text.lines.length - 1) right.line) :
    left.movedInto text ≤ right.movedInto text :=
  .inl (Int.ofNat_lt.mpr before)

/-- On lines that are moved to one the columns decide. -/
theorem movedInto_le_iff_of_line {line : Nat}
    (leftLine : clampTo (text.lines.length - 1) left.line = line)
    (rightLine : clampTo (text.lines.length - 1) right.line = line) :
    left.movedInto text ≤ right.movedInto text ↔
      clampTo (lineLength text.lines line) left.column ≤
        clampTo (lineLength text.lines line) right.column := by
  simp only [Position.le_iff, Position.movedInto, leftLine, rightLine, Int.ofNat_le, lt_irrefl,
    true_and, false_or]

/-- The order of two positions is lost exactly if both are moved to the last line, the later one
from below, and its column is in front of the other's and of the end of the line. -/
theorem movedInto_le_iff (ordered : left ≤ right) (line : 0 ≤ left.line)
    (column : 0 ≤ right.column) :
    left.movedInto text ≤ right.movedInto text ↔
      right.line ≤ text.extent.line ∨ left.line < text.extent.line ∨
        left.column ≤ right.column ∨ text.extent.column ≤ right.column := by
  rw [extent_eq]
  dsimp only
  rcases ordered with earlier | ⟨sameLine, columns⟩
  · by_cases apart : right.line ≤ (text.lines.length - 1 : Nat) ∨
        left.line < (text.lines.length - 1 : Nat)
    · have before : clampTo (text.lines.length - 1) left.line <
          clampTo (text.lines.length - 1) right.line := by
        simp only [clampTo]
        omega
      exact iff_of_true (movedInto_le_of_line_lt before) (or_assoc.mp (.inl apart))
    · have leftLine : clampTo (text.lines.length - 1) left.line = text.lines.length - 1 := by
        simp only [clampTo]
        omega
      have rightLine : clampTo (text.lines.length - 1) right.line = text.lines.length - 1 := by
        simp only [clampTo]
        omega
      rw [movedInto_le_iff_of_line leftLine rightLine, clampTo_le_clampTo_iff column, ← or_assoc,
        or_iff_right apart]
  · refine iff_of_true ?_ (.inr (.inr (.inl columns)))
    rw [movedInto_le_iff_of_line rfl (congrArg (clampTo _) sameLine.symm)]
    exact clampTo_mono _ columns

/-- A position behind a text is moved to its end exactly if its column is not in front of it. -/
theorem offsetAt_eq_length_iff (behind : text.extent ≤ right) (column : 0 ≤ right.column) :
    offsetAt text right = text.length ↔ text.extent.column ≤ right.column := by
  have line : clampTo (text.lines.length - 1) right.line = text.lines.length - 1 := by
    simp only [extent_eq, Position.le_iff] at behind
    simp only [clampTo]
    omega
  have ended : offsetAt text text.extent = text.length := offsetAt_positionAt (Nat.le_refl _)
  have inside : text.extent.LiesIn text := positionAt_liesIn (Nat.le_refl _)
  rw [inside.offsetAt_eq, extent_eq, Int.toNat_natCast, Int.toNat_natCast] at ended
  simp only [extent_eq, offsetAt, line, ← ended, Nat.add_left_cancel_iff]
  simp only [clampTo]
  omega

end Moved

namespace Document

variable {document : Document} {left right : Position}

/-- Positions of which the later one stands on a line of the document, or the other one above the
last line, are moved into it in their order. Otherwise both come to stand on the last line, and
their order is kept exactly if the column of the later one is not in front of both the other's and
the end of that line. A range that stops behind the document reaches up to its end exactly if the
column of its stop is not in front of that end, or nothing is left behind its start. -/
theorem offsetAt_le_and_textIn_iff (ordered : left ≤ right) (line : 0 ≤ left.line)
    (column : 0 ≤ right.column) :
    (offsetAt document.text left ≤ offsetAt document.text right ↔
      right.line ≤ document.text.extent.line ∨ left.line < document.text.extent.line ∨
        left.column ≤ right.column ∨ document.text.extent.column ≤ right.column) ∧
    (document.text.extent ≤ right →
      (document.textIn ⟨left, right⟩ = document.text.drop (offsetAt document.text left) ↔
        document.text.extent.column ≤ right.column ∨
          offsetAt document.text left = document.text.length)) := by
  refine ⟨offsetAt_le_offsetAt_iff.trans (movedInto_le_iff ordered line column), fun behind => ?_⟩
  have reach : ∀ position, document.text.length ≤ offsetAt document.text position ↔
      offsetAt document.text position = document.text.length := fun position => by
    have within := (position.movedInto_liesIn document.text).offsetAt_le_length
    rw [offsetAt_movedInto] at within
    omega
  rw [textIn, slice_eq_drop_iff, reach, reach, offsetAt_eq_length_iff behind column]

def openNote : Document where
  identity := "note"
  languageId := plainLanguage
  text := "ab\ncd"

/-- A stop in the first column below the last line is moved in front of a start on that line, while
one that is far enough to the right is moved to the end. -/
theorem offsetAt_le_and_textIn_iff_openNote :
    (⟨1, 1⟩ : Position) ≤ ⟨2, 0⟩ ∧ openNote.text.extent ≤ ⟨2, 0⟩ ∧
      ¬ offsetAt openNote.text ⟨1, 1⟩ ≤ offsetAt openNote.text ⟨2, 0⟩ ∧
      openNote.textIn ⟨⟨1, 1⟩, ⟨2, 0⟩⟩ ≠ openNote.text.drop (offsetAt openNote.text ⟨1, 1⟩) ∧
      openNote.textIn ⟨⟨1, 1⟩, ⟨2, 9⟩⟩ = openNote.text.drop (offsetAt openNote.text ⟨1, 1⟩) := by
  have near := @offsetAt_le_and_textIn_iff openNote ⟨1, 1⟩ ⟨2, 0⟩ (by decide) (by decide) (by decide)
  have far := @offsetAt_le_and_textIn_iff openNote ⟨1, 1⟩ ⟨2, 9⟩ (by decide) (by decide) (by decide)
  exact ⟨by decide, by decide, near.1.not.mpr (by decide), (near.2 (by decide)).not.mpr (by decide),
    (far.2 (by decide)).mpr (by decide)⟩

/-- A position behind the document may be moved in front of one that lies in it. -/
theorem not_forall_offsetAt_le :
    ¬ ∀ (document : Document) (left right : Position), 0 ≤ left.line → 0 ≤ left.column →
      0 ≤ right.line → 0 ≤ right.column → left ≤ right →
        offsetAt document.text left ≤ offsetAt document.text right ∧
          (document.text.extent < right →
            document.textIn ⟨left, right⟩ = document.text.drop (offsetAt document.text left)) := by
  intro law
  have ordered := (law openNote ⟨1, 1⟩ ⟨2, 0⟩ (by decide) (by decide) (by decide) (by decide)
    (by decide)).1
  exact absurd ordered (by decide)

end Document

end CodeProse
