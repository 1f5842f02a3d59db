import CodeProse.Document.Position
import CodeProse.Proofs.Sequence
import Mathlib.Data.List.Chain
import Mathlib.Order.Defs.LinearOrder

/-!
# Laws of positions and ranges

Positions are linearly ordered, and ranges by start and stop are too. Ranges with an extent and
gaps between them are in that order already.
-/

set_option autoImplicit false

namespace CodeProse

section Order

variable {left middle right : Position}

theorem Position.lt_iff : left < right ↔
    left.line < right.line ∨ left.line = right.line ∧ left.column < right.column :=
  Iff.rfl

theorem Position.le_iff : left ≤ right ↔
    left.line < right.line ∨ left.line = right.line ∧ left.column ≤ right.column :=
  Iff.rfl

instance : LinearOrder Position where
  le_refl position := by
    rw [Position.le_iff]
    omega
  le_trans left middle right := by
    simp only [Position.le_iff]
    omega
  le_antisymm left right := by
    obtain ⟨leftLine, leftColumn⟩ := left
    obtain ⟨rightLine, rightColumn⟩ := right
    simp only [Position.le_iff, Position.mk.injEq]
    omega
  le_total left right := by
    simp only [Position.le_iff]
    omega
  lt_iff_le_not_ge left right := by
    simp only [Position.le_iff, Position.lt_iff]
    omega
  toDecidableLE := inferInstance

end Order

namespace Range

theorem notAfter_iff {left right : Range} : left.notAfter right = true ↔
    left.start < right.start ∨ left.start = right.start ∧ left.stop ≤ right.stop := by
  simp [notAfter]

theorem notAfter_total (left right : Range) :
    left.notAfter right = true ∨ right.notAfter left = true := by
  simp only [notAfter_iff]
  rcases lt_trichotomy left.start right.start with before | same | behind
  · exact .inl (.inl before)
  · rcases le_total left.stop right.stop with first | second
    · exact .inl (.inr ⟨same, first⟩)
    · exact .inr (.inr ⟨same.symm, second⟩)
  · exact .inr (.inl behind)

theorem notAfter_trans (left middle right : Range) (first : left.notAfter middle = true)
    (second : middle.notAfter right = true) : left.notAfter right = true := by
  rw [notAfter_iff] at first second ⊢
  rcases first with before | ⟨same, stops⟩
  · rcases second with later | ⟨same, -⟩
    · exact .inl (before.trans later)
    · exact .inl (same ▸ before)
  · rcases second with later | ⟨again, furtherStops⟩
    · exact .inl (same ▸ later)
    · exact .inr ⟨same.trans again, stops.trans furtherStops⟩

theorem notAfter_antisymm {left right : Range} (first : left.notAfter right = true)
    (second : right.notAfter left = true) : left = right := by
  obtain ⟨leftStart, leftStop⟩ := left
  obtain ⟨rightStart, rightStop⟩ := right
  rw [notAfter_iff] at first second
  rcases first with before | ⟨same, stops⟩
  · rcases second with behind | ⟨same, -⟩
    · exact absurd behind (lt_asymm before)
    · exact absurd same.symm before.ne
  · rcases second with behind | ⟨-, reverse⟩
    · exact absurd same.symm behind.ne
    · exact Range.mk.injEq .. ▸ ⟨same, le_antisymm stops reverse⟩

end Range

/-- Ranges with a gap between each and every later one. -/
def Apart (ranges : List Range) : Prop :=
  ranges.Pairwise (·.stop < ·.start)

/-- Ranges that have an extent and, in document order, a gap to the next one. -/
structure Spaced (ranges : List Range) : Prop where
  extent : ∀ range ∈ ranges, range.start < range.stop
  gaps : (stableSort Range.notAfter ranges).IsChain (·.stop < ·.start)

section Spaced

variable {ranges ordered : List Range}

theorem pairwise_notAfter_of_apart (apart : Apart ordered)
    (extent : ∀ range ∈ ordered, range.start < range.stop) :
    ordered.Pairwise (Range.notAfter · · = true) := by
  refine apart.imp_of_mem fun {left right} member _ gap => ?_
  exact Range.notAfter_iff.mpr (.inl ((extent left member).trans gap))

theorem apart_of_isChain (gaps : ordered.IsChain (·.stop < ·.start))
    (extent : ∀ range ∈ ordered, range.start < range.stop) : Apart ordered := by
  induction ordered with
  | nil => exact List.Pairwise.nil
  | cons first rest ih =>
      have further := ih gaps.tail fun range member => extent range (List.mem_cons_of_mem _ member)
      refine List.pairwise_cons.mpr ⟨fun later member => ?_, further⟩
      cases rest with
      | nil => cases member
      | cons second rest =>
          have gap := List.rel_of_isChain_cons_cons gaps
          rcases List.mem_cons.mp member with rfl | behind
          · exact gap
          · have reach := extent second (List.mem_cons_of_mem _ List.mem_cons_self)
            exact gap.trans (reach.trans (List.rel_of_pairwise_cons further behind))

theorem Spaced.apart (spaced : Spaced ranges) : Apart (stableSort Range.notAfter ranges) :=
  apart_of_isChain spaced.gaps fun range member =>
    spaced.extent range (mem_stableSort.mp member)

theorem Spaced.of_perm (same : ranges.Perm ordered) (apart : Apart ordered)
    (extent : ∀ range ∈ ordered, range.start < range.stop) : Spaced ranges := by
  have sorted : stableSort Range.notAfter ranges = ordered :=
    stableSort_eq_of_pairwise Range.notAfter_trans same
      (fun left _ right _ => Range.notAfter_total left right)
      (fun _ _ _ _ => Range.notAfter_antisymm) (pairwise_notAfter_of_apart apart extent)
  exact ⟨fun range member => extent range (same.mem_iff.mp member), sorted ▸ apart.isChain⟩

theorem Spaced.subperm {part : List Range} (spaced : Spaced ranges)
    (kept : part.Subperm ranges) : Spaced part := by
  obtain ⟨ordered, same, within⟩ : part.Subperm (stableSort Range.notAfter ranges) :=
    kept.trans (stableSort_perm _ ranges).symm.subperm
  refine .of_perm same.symm (spaced.apart.sublist within) fun range member => ?_
  exact spaced.extent range (mem_stableSort.mp (within.subset member))

end Spaced

end CodeProse
