import CodeProse.Proofs.Numeric.Doubling
import Mathlib.Tactic.Ring

/-!
# The limit of the binary64 format

The largest number of the format is `2^1024 - 2^971`. A quotient is rounded to an infinity from
half a step above it on, where it is as near to `2^1024`, whose significand is even.
-/

set_option autoImplicit false

namespace CodeProse

/-- A quotient is rounded up to an even number from half a unit below that number on. -/
theorem le_roundQuotient_iff {numerator denominator : Nat} (half : Nat)
    (positive : 0 < denominator) :
    2 * (half + 1) ≤ roundQuotient numerator denominator ↔
      (4 * half + 3) * denominator ≤ 2 * numerator := by
  have whole := Nat.div_add_mod numerator denominator
  have rest := Nat.mod_lt numerator positive
  rw [roundQuotient]
  generalize numerator / denominator = quotient at whole
  generalize numerator % denominator = remainder at whole rest
  -- Everything is compared with the one whole number below the bound.
  rcases Nat.lt_trichotomy quotient (2 * half + 1) with below | rfl | above
  · have product : denominator * quotient ≤ denominator * (2 * half) :=
      Nat.mul_le_mul_left denominator (Nat.le_of_lt_succ below)
    have parity := Nat.mod_two_eq_zero_or_one quotient
    have expanded : (4 * half + 3) * denominator =
        2 * (denominator * (2 * half)) + 3 * denominator := by ring
    split
    · omega
    · split
      · omega
      · omega
  · have odd : (2 * half + 1) % 2 = 1 := by omega
    have expanded : (4 * half + 3) * denominator =
        2 * (denominator * (2 * half + 1)) + denominator := by ring
    rw [odd]
    split
    · omega
    · split
      · omega
      · omega
  · have product : denominator * (2 * half + 2) ≤ denominator * quotient :=
      Nat.mul_le_mul_left denominator above
    have expanded : (4 * half + 3) * denominator + denominator =
        2 * (denominator * (2 * half + 2)) := by ring
    split
    · omega
    · split
      · omega
      · omega

namespace Binary64

section Rounding

variable {numerator denominator exponent : Nat}

theorem div_lt_of_lt_two_pow (step : Nat)
    (small : numerator / denominator < Nat.pow 2 exponent) (finer : step ≤ exponent) :
    numerator / (denominator * Nat.pow 2 step) < Nat.pow 2 (exponent - step) := by
  rw [← Nat.div_div_eq_div_mul]
  apply Nat.div_lt_of_lt_mul
  rw [two_pow_add, Nat.add_sub_cancel' finer]
  exact small

theorem nearest_le_two_pow (small : numerator / denominator < Nat.pow 2 exponent) :
    nearest numerator denominator ≤ Nat.pow 2 exponent := by
  have height : Nat.log2 (numerator / denominator) - 52 ≤ exponent := by
    rcases Nat.eq_zero_or_pos (numerator / denominator) with nothing | some
    · rw [nothing, Nat.log2_zero]
      omega
    · have := (Nat.log2_lt (Nat.ne_of_gt some)).mpr small
      omega
  have rounded := roundQuotient_le numerator
    (denominator * spacing (numerator / denominator))
  calc nearest numerator denominator
      ≤ (numerator / (denominator * spacing (numerator / denominator)) + 1) *
          spacing (numerator / denominator) := Nat.mul_le_mul_right _ rounded
    _ ≤ Nat.pow 2 (exponent - (Nat.log2 (numerator / denominator) - 52)) *
          spacing (numerator / denominator) :=
        Nat.mul_le_mul_right _ (div_lt_of_lt_two_pow _ small height)
    _ = Nat.pow 2 exponent := by
        rw [spacing, two_pow_add, Nat.sub_add_cancel height]

theorem le_roundQuotient : numerator / denominator ≤ roundQuotient numerator denominator := by
  simp only [roundQuotient]
  split
  · exact Nat.le_refl _
  · split
    · exact Nat.le_succ _
    · exact Nat.le_add_right _ _

theorem two_pow_le_nearest (large : Nat.pow 2 exponent ≤ numerator / denominator) :
    Nat.pow 2 exponent ≤ nearest numerator denominator := by
  have some : numerator / denominator ≠ 0 :=
    Nat.ne_of_gt (Nat.lt_of_lt_of_le (Nat.two_pow_pos exponent) large)
  have reached : Nat.pow 2 (Nat.log2 (numerator / denominator)) ≤ numerator / denominator :=
    Nat.log2_self_le some
  have height : exponent ≤ Nat.log2 (numerator / denominator) := (Nat.le_log2 some).mpr large
  generalize tall : Nat.log2 (numerator / denominator) = top at reached height
  have split : Nat.pow 2 (top - (top - 52)) * Nat.pow 2 (top - 52) = Nat.pow 2 top := by
    rw [two_pow_add, Nat.sub_add_cancel (Nat.sub_le _ _)]
  have counted : Nat.pow 2 (top - (top - 52)) ≤
      numerator / (denominator * Nat.pow 2 (top - 52)) := by
    rw [← Nat.div_div_eq_div_mul]
    exact (Nat.le_div_iff_mul_le (Nat.two_pow_pos _)).mpr (split.trans_le reached)
  calc Nat.pow 2 exponent
      ≤ Nat.pow 2 top := Nat.pow_le_pow_right (Nat.succ_pos 1) height
    _ = Nat.pow 2 (top - (top - 52)) * Nat.pow 2 (top - 52) := split.symm
    _ ≤ roundQuotient numerator (denominator * Nat.pow 2 (top - 52)) * Nat.pow 2 (top - 52) :=
        Nat.mul_le_mul_right _ (Nat.le_trans counted le_roundQuotient)
    _ = nearest numerator denominator := by rw [nearest, spacing, tall]

end Rounding

section Top

theorem two_pow_split (step : Nat) :
    Nat.pow 2 (step + 54) = 2 * (Nat.pow 2 52 - 1 + 1) * Nat.pow 2 (step + 1) := by
  rw [← two_pow_add step 54, ← two_pow_add step 1, Nat.mul_comm (Nat.pow 2 step),
    Nat.mul_comm (Nat.pow 2 step), ← Nat.mul_assoc]

variable {numerator denominator : Nat}

theorem two_pow_le_nearest_iff_of_high {step : Nat} (positive : 0 < denominator)
    (low : Nat.pow 2 (step + 53) ≤ numerator / denominator)
    (high : numerator / denominator < Nat.pow 2 (step + 54)) :
    Nat.pow 2 (step + 54) ≤ nearest numerator denominator ↔
      (4 * (Nat.pow 2 52 - 1) + 3) * Nat.pow 2 step ≤ numerator / denominator := by
  have some : numerator / denominator ≠ 0 :=
    Nat.ne_of_gt (Nat.lt_of_lt_of_le (Nat.two_pow_pos (step + 53)) low)
  have top : Nat.log2 (numerator / denominator) = step + 53 :=
    Nat.le_antisymm (Nat.le_of_lt_succ ((Nat.log2_lt some).mpr high)) ((Nat.le_log2 some).mpr low)
  have spaced : spacing (numerator / denominator) = Nat.pow 2 (step + 1) := by
    rw [spacing, top, Nat.add_sub_assoc (by decide)]
  have scaled : 0 < Nat.pow 2 (step + 1) := Nat.two_pow_pos _
  have doubled : (4 * (Nat.pow 2 52 - 1) + 3) * (denominator * Nat.pow 2 (step + 1)) =
      2 * ((4 * (Nat.pow 2 52 - 1) + 3) * Nat.pow 2 step * denominator) := by
    rw [← two_pow_add step 1]
    generalize 4 * (Nat.pow 2 52 - 1) + 3 = factor
    generalize Nat.pow 2 step = power
    show factor * (denominator * (power * 2)) = _
    ring
  rw [Nat.le_div_iff_mul_le positive, nearest, spaced, two_pow_split,
    Nat.mul_le_mul_right_iff scaled, le_roundQuotient_iff _ (Nat.mul_pos positive scaled), doubled]
  exact Nat.mul_le_mul_left_iff (Nat.succ_pos 1)

/-- A quotient is rounded to a power of two from half a step below that power on. -/
theorem two_pow_le_nearest_iff (step : Nat) (positive : 0 < denominator) :
    Nat.pow 2 (step + 54) ≤ nearest numerator denominator ↔
      (4 * (Nat.pow 2 52 - 1) + 3) * Nat.pow 2 step ≤ numerator / denominator := by
  have least : Nat.pow 2 (step + 53) ≤ (4 * (Nat.pow 2 52 - 1) + 3) * Nat.pow 2 step := by
    rw [← two_pow_add step 53, Nat.mul_comm]
    exact Nat.mul_le_mul_right _ (by decide)
  have most : (4 * (Nat.pow 2 52 - 1) + 3) * Nat.pow 2 step ≤ Nat.pow 2 (step + 54) := by
    rw [← two_pow_add step 54, Nat.mul_comm]
    exact Nat.mul_le_mul_left _ (by decide)
  rcases Nat.lt_or_ge (numerator / denominator) (Nat.pow 2 (step + 53)) with low | low
  · have beyond : Nat.pow 2 (step + 53) < Nat.pow 2 (step + 54) :=
      Nat.pow_lt_pow_right (Nat.lt_succ_self 1) (Nat.lt_succ_self _)
    constructor
    · intro reached
      exact absurd (Nat.le_trans reached (nearest_le_two_pow low)) (Nat.not_le.mpr beyond)
    · intro reached
      exact absurd (Nat.le_trans least reached) (Nat.not_le.mpr low)
  · rcases Nat.lt_or_ge (numerator / denominator) (Nat.pow 2 (step + 54)) with high | high
    · exact two_pow_le_nearest_iff_of_high positive low high
    · exact ⟨fun _ => Nat.le_trans most high, fun _ => two_pow_le_nearest high⟩

end Top

/-- The least magnitude that is rounded beyond the format, `2^1024 - 2^970`. -/
def limit : Nat := Nat.pow 2 (970 + 54) - Nat.pow 2 970

theorem limit_mul_one :
    limit * one = (4 * (Nat.pow 2 52 - 1) + 3) * Nat.pow 2 (970 + 1074) := by
  have lacking : ∀ low : Nat, Nat.pow 2 (low + 54) - Nat.pow 2 low =
      (4 * (Nat.pow 2 52 - 1) + 3) * Nat.pow 2 low := by
    intro low
    have factor : 4 * (Nat.pow 2 52 - 1) + 3 = Nat.pow 2 54 - 1 := by decide
    rw [factor, Nat.sub_mul, Nat.one_mul, two_pow_add, Nat.add_comm]
  rw [limit, lacking 970, one, Nat.mul_assoc, two_pow_add]

/-- A quotient is rounded beyond the format exactly from the limit on. -/
theorem overflow_le_nearest_iff {numerator denominator : Nat} (positive : 0 < denominator) :
    overflow ≤ nearest numerator denominator ↔ limit * one ≤ numerator / denominator := by
  have top : 2098 = 970 + 1074 + 54 := rfl
  rw [overflow, top, limit_mul_one]
  exact two_pow_le_nearest_iff _ positive

theorem limit_mul_one_le_div_iff (numerator : Nat) {denominator : Nat}
    (positive : 0 < denominator) :
    limit * one ≤ numerator * one / denominator ↔ limit * denominator ≤ numerator := by
  rw [Nat.le_div_iff_mul_le positive, Nat.mul_right_comm]
  exact Nat.mul_le_mul_right_iff one_pos

/-- A ratio of integers has no number in the format exactly where it reaches the limit. -/
theorem ofRatio?_eq_none_iff (numerator : Int) {denominator : Int} (some : denominator ≠ 0) :
    ofRatio? numerator denominator = none ↔
      limit * denominator.natAbs ≤ numerator.natAbs := by
  have positive : 0 < denominator.natAbs := Int.natAbs_pos.mpr some
  rw [← limit_mul_one_le_div_iff _ positive, ← overflow_le_nearest_iff positive, ofRatio?,
    ofQuotient]
  split
  case isTrue beyond => exact ⟨fun _ => beyond, fun _ => rfl⟩
  case isFalse within =>
    exact ⟨fun none => absurd none (Option.some_ne_none _), fun beyond => absurd beyond within⟩

theorem ofInt?_eq_none_iff (value : Int) : ofInt? value = none ↔ limit ≤ value.natAbs := by
  rw [ofInt?, ofRatio?_eq_none_iff value Int.one_ne_zero, Int.natAbs_one, Nat.mul_one]

end Binary64

end CodeProse
