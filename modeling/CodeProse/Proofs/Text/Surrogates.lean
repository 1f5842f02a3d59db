import CodeProse.Text.Blank
import CodeProse.Text.Encoding

/-!
# Halves of surrogate pairs

A half of a surrogate pair that stands alone is a code point like any other. Two halves that stand
side by side look like one character as soon as they are written as escapes.
-/

set_option autoImplicit false

namespace CodeProse

namespace CodePoint

/-- The first half of a surrogate pair. -/
def IsHigh (char : CodePoint) : Prop :=
  0xD800 ≤ char.toNat ∧ char.toNat ≤ 0xDBFF

/-- The second half of a surrogate pair. -/
def IsLow (char : CodePoint) : Prop :=
  0xDC00 ≤ char.toNat ∧ char.toNat ≤ 0xDFFF

instance (char : CodePoint) : Decidable char.IsHigh :=
  inferInstanceAs (Decidable (_ ∧ _))

instance (char : CodePoint) : Decidable char.IsLow :=
  inferInstanceAs (Decidable (_ ∧ _))

theorem not_isHigh_scalar (char : Char) : ¬ (scalar char).IsHigh := by
  rintro ⟨above, below⟩
  rcases char.valid with low | ⟨high, -⟩
  · exact Nat.not_le.mpr low above
  · exact Nat.not_lt.mpr below (Nat.lt_trans (by decide) high)

end CodePoint

namespace Text

/-- No first half of a surrogate pair stands directly before a second one. -/
def IsUnpaired : Text → Prop
  | first :: second :: rest => ¬ (first.IsHigh ∧ second.IsLow) ∧ IsUnpaired (second :: rest)
  | _ => True

instance decidableIsUnpaired : (text : Text) → Decidable text.IsUnpaired
  | [] => .isTrue trivial
  | [_] => .isTrue trivial
  | _ :: second :: rest =>
      have := decidableIsUnpaired (second :: rest)
      inferInstanceAs (Decidable (_ ∧ _))

variable {first second : CodePoint} {rest text : Text}

theorem IsUnpaired.head (unpaired : IsUnpaired (first :: second :: rest)) :
    ¬ (first.IsHigh ∧ second.IsLow) :=
  unpaired.1

theorem IsUnpaired.tail (unpaired : IsUnpaired (first :: rest)) : IsUnpaired rest := by
  cases rest with
  | nil => trivial
  | cons second rest => exact unpaired.2

/-- No half of a surrogate pair stands in a text. -/
def IsWhole (text : Text) : Prop :=
  ∀ char ∈ text, char.char?.isSome = true

instance (text : Text) : Decidable (IsWhole text) :=
  inferInstanceAs (Decidable (∀ char ∈ text, char.char?.isSome = true))

theorem isWhole_append {front : Text} : IsWhole (front ++ rest) ↔ IsWhole front ∧ IsWhole rest :=
  List.forall_mem_append

theorem IsWhole.isUnpaired (whole : IsWhole text) : text.IsUnpaired := by
  induction text with
  | nil => trivial
  | cons first rest ih =>
      obtain ⟨alone, others⟩ := List.forall_mem_cons.mp whole
      cases rest with
      | nil => trivial
      | cons second rest =>
          refine ⟨?_, ih others⟩
          rintro ⟨high, -⟩
          cases first with
          | scalar char => exact CodePoint.not_isHigh_scalar char high
          | surrogate index => cases alone

theorem isWhole_hexDigits (width number : Nat) : IsWhole (hexDigits width number) := by
  intro char member
  rcases List.mem_append.mp member with filler | digit
  · rw [List.eq_of_mem_replicate filler]
    rfl
  · obtain ⟨scalar, -, rfl⟩ := List.mem_map.mp digit
    rfl

/-- Blanks are no halves of surrogate pairs. -/
theorem isWhole_of_isBlank (blank : text.isBlank = true) : IsWhole text := by
  intro char member
  have known := List.all_eq_true.mp blank char member
  cases char with
  | scalar char => rfl
  | surrogate index =>
      simp only [CodeProse.isBlank, Bool.or_eq_true, Bool.and_eq_true, decide_eq_true_eq,
        beq_iff_eq] at known
      simp only [CodePoint.toNat] at known
      omega

theorem chars?_isSome_iff : (chars? text).isSome = true ↔ IsWhole text := by
  induction text with
  | nil => simp [chars?, IsWhole]
  | cons first rest ih =>
      rw [IsWhole, List.forall_mem_cons, ← IsWhole, ← ih, chars?, chars?, List.mapM_cons]
      cases first.char? with
      | none => simp
      | some char => cases rest.mapM CodePoint.char? <;> simp

theorem chars?_eq_none_iff : chars? text = none ↔ ¬ IsWhole text := by
  rw [← chars?_isSome_iff, Option.not_isSome_iff_eq_none]

end Text

end CodeProse
