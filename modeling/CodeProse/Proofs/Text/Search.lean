import CodeProse.Text.Basic
import CodeProse.Proofs.Sequence

/-!
# Laws of searching in texts

What the first and the last place of a piece of text mean, and what is left around them.
-/

set_option autoImplicit false

namespace CodeProse.Text

theorem indexOf?_eq_none_iff {needle text : Text} :
    indexOf? needle text = none ↔ ¬ needle <:+: text := by
  induction text with
  | nil =>
      by_cases empty : needle = []
      · simp [indexOf?, empty]
      · simp [indexOf?, empty]
  | cons char rest ih =>
      by_cases front : needle.isPrefixOf (char :: rest)
      · have found : needle <:+: char :: rest := (List.isPrefixOf_iff_prefix.mp front).isInfix
        simp [indexOf?, front, found]
      · have elsewhere : needle <:+: char :: rest ↔ needle <:+: rest := by
          rw [List.infix_cons_iff]
          exact or_iff_right fun found => front (List.isPrefixOf_iff_prefix.mpr found)
        rw [elsewhere, indexOf?, if_neg front, Option.map_eq_none_iff, ih]

theorem contains_iff_isInfix {needle text : Text} :
    contains needle text = true ↔ needle <:+: text := by
  rw [contains, Option.isSome_iff_ne_none, ne_eq, indexOf?_eq_none_iff, Classical.not_not]

theorem indexOf?_eq_some {needle text : Text} {index : Nat}
    (found : indexOf? needle text = some index) :
    needle <+: text.drop index ∧ ∀ earlier < index, ¬ needle <+: text.drop earlier := by
  induction text generalizing index with
  | nil =>
      by_cases empty : needle = []
      · simp only [indexOf?, empty, ↓reduceIte, Option.some.injEq] at found
        subst found
        simp [empty]
      · simp [indexOf?, empty] at found
  | cons char rest ih =>
      by_cases front : needle.isPrefixOf (char :: rest)
      · simp only [indexOf?, front, ↓reduceIte, Option.some.injEq] at found
        subst found
        exact ⟨List.isPrefixOf_iff_prefix.mp front, fun _ impossible => absurd impossible (by omega)⟩
      · rw [indexOf?, if_neg front, Option.map_eq_some_iff] at found
        obtain ⟨behind, foundBehind, rfl⟩ := found
        obtain ⟨here, first⟩ := ih foundBehind
        refine ⟨here, fun earlier before => ?_⟩
        cases earlier with
        | zero => exact fun atFront => front (List.isPrefixOf_iff_prefix.mpr atFront)
        | succ earlier => exact first earlier (Nat.lt_of_succ_lt_succ before)

theorem lastIndexOf?_eq_none_iff {needle text : Text} :
    lastIndexOf? needle text = none ↔ ¬ needle <:+: text := by
  induction text with
  | nil =>
      by_cases empty : needle = []
      · simp [lastIndexOf?, empty]
      · simp [lastIndexOf?, empty]
  | cons char rest ih =>
      rw [List.infix_cons_iff, not_or, ← ih]
      cases behind : lastIndexOf? needle rest with
      | some index => simp [lastIndexOf?, behind]
      | none =>
          by_cases front : needle.isPrefixOf (char :: rest)
          · simp [lastIndexOf?, behind, front, List.isPrefixOf_iff_prefix.mp front]
          · have absent : ¬ needle <+: char :: rest :=
              fun found => front (List.isPrefixOf_iff_prefix.mpr found)
            simp [lastIndexOf?, behind, front, absent]

theorem exists_lastIndexOf? {needle text : Text} (present : contains needle text = true) :
    ∃ index, lastIndexOf? needle text = some index := by
  rw [← Option.isSome_iff_exists, Option.isSome_iff_ne_none, ne_eq, lastIndexOf?_eq_none_iff,
    Classical.not_not]
  exact contains_iff_isInfix.mp present

theorem lastIndexOf?_eq_some {needle text : Text} {index : Nat}
    (found : lastIndexOf? needle text = some index) :
    needle <+: text.drop index ∧ ∀ later, index < later → later ≤ text.length →
      ¬ needle <+: text.drop later := by
  induction text generalizing index with
  | nil =>
      by_cases empty : needle = []
      · simp only [lastIndexOf?, empty, ↓reduceIte, Option.some.injEq] at found
        subst found
        refine ⟨by simp [empty], fun later behind within => ?_⟩
        rw [List.length_nil] at within
        omega
      · simp [lastIndexOf?, empty] at found
  | cons char rest ih =>
      cases behind : lastIndexOf? needle rest with
      | some last =>
          simp only [lastIndexOf?, behind, Option.some.injEq] at found
          subst found
          obtain ⟨here, final⟩ := ih behind
          refine ⟨here, fun later after within => ?_⟩
          cases later with
          | zero => omega
          | succ later => exact final later (by omega) (Nat.le_of_succ_le_succ within)
      | none =>
          have absent := lastIndexOf?_eq_none_iff.mp behind
          by_cases front : needle.isPrefixOf (char :: rest)
          · simp only [lastIndexOf?, behind, front, ↓reduceIte, Option.some.injEq] at found
            subst found
            refine ⟨List.isPrefixOf_iff_prefix.mp front, fun later after _ => ?_⟩
            cases later with
            | zero => omega
            | succ later =>
                intro found
                exact absent (found.isInfix.trans (List.drop_suffix later rest).isInfix)
          · simp [lastIndexOf?, behind, front] at found

theorem slice_of_prefix_drop {needle text : Text} {index : Nat}
    (here : needle <+: text.drop index) : slice text index (index + needle.length) = needle := by
  rw [slice_eq_take_drop, Nat.add_sub_cancel_left]
  exact (List.prefix_iff_eq_take.mp here).symm

theorem le_length_of_prefix_drop {needle text : Text} {index : Nat} (nonempty : needle ≠ [])
    (here : needle <+: text.drop index) : index + needle.length ≤ text.length := by
  have short := here.length_le
  have positive := List.length_pos_iff.mpr nonempty
  rw [List.length_drop] at short
  omega

theorem replaceFirst_self {old new : Text} : replaceFirst old new old = new := by
  cases old with
  | nil => simp [replaceFirst, indexOf?]
  | cons char rest =>
      have front : (char :: rest).isPrefixOf (char :: rest) = true :=
        List.isPrefixOf_iff_prefix.mpr (List.prefix_refl _)
      simp [replaceFirst, indexOf?, front]

end CodeProse.Text
