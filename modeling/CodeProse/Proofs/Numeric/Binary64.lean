import CodeProse.Numeric.Binary64

/-!
# Laws of binary64 numbers

Rounding a quotient adds at most one step of the format, so that quotients well below the largest
number stay finite. All numbers but `nan` are in order.
-/

set_option autoImplicit false

namespace CodeProse

theorem roundQuotient_le (numerator denominator : Nat) :
    roundQuotient numerator denominator ≤ numerator / denominator + 1 := by
  have parity := Nat.mod_lt (numerator / denominator) (Nat.succ_pos 1)
  simp only [roundQuotient]
  split
  · omega
  · split
    · omega
    · omega

namespace Binary64

theorem spacing_le (units : Nat) : spacing units ≤ units + 1 := by
  have power : spacing units ≤ Nat.pow 2 (Nat.log2 units) :=
    Nat.pow_le_pow_right (Nat.succ_pos 1) (Nat.sub_le _ _)
  rcases Nat.eq_zero_or_pos units with rfl | some
  · exact power
  · have reached : Nat.pow 2 (Nat.log2 units) ≤ units :=
      Nat.log2_self_le (Nat.ne_of_gt some)
    exact Nat.le_succ_of_le (Nat.le_trans power reached)

/-- Rounding at most doubles a quotient of units. -/
theorem nearest_le (numerator denominator : Nat) :
    nearest numerator denominator ≤ 2 * (numerator / denominator) + 1 := by
  have step := spacing_le (numerator / denominator)
  have rounded := roundQuotient_le numerator
    (denominator * spacing (numerator / denominator))
  have whole : numerator / (denominator * spacing (numerator / denominator)) *
      spacing (numerator / denominator) ≤ numerator / denominator := by
    rw [← Nat.div_div_eq_div_mul]
    exact Nat.div_mul_le_self _ _
  calc nearest numerator denominator
      ≤ (numerator / (denominator * spacing (numerator / denominator)) + 1) *
          spacing (numerator / denominator) := Nat.mul_le_mul_right _ rounded
    _ = numerator / (denominator * spacing (numerator / denominator)) *
          spacing (numerator / denominator) + spacing (numerator / denominator) :=
        Nat.succ_mul _ _
    _ ≤ 2 * (numerator / denominator) + 1 := by omega

/-- A bound under which the magnitudes of integers are far from the limit of the format. -/
def integerBound : Nat := Nat.pow 2 1023

theorem two_pow_sum (left right : Nat) :
    Nat.pow 2 (left + right + 1) = 2 * (Nat.pow 2 left * Nat.pow 2 right) := by
  show 2 ^ (left + right + 1) = 2 * (2 ^ left * 2 ^ right)
  rw [Nat.pow_succ', Nat.pow_add]

theorem overflow_eq : overflow = 2 * (integerBound * one) := by
  rw [overflow, integerBound, one, ← two_pow_sum]

theorem one_pos : 0 < one :=
  Nat.two_pow_pos 1074

theorem ofQuotient_of_lt {negative : Bool} {numerator denominator : Nat}
    (finite : nearest numerator denominator < overflow) :
    ofQuotient negative numerator denominator =
      .finite negative (nearest numerator denominator) := by
  rw [ofQuotient]
  exact if_neg (Nat.not_le.mpr finite)

/-- A quotient of an integer below half the limit of the format is a number of the format. -/
theorem ofRatio?_isSome {numerator : Int} (small : numerator.natAbs < integerBound)
    (denominator : Int) : (ofRatio? numerator denominator).isSome := by
  have limit := overflow_eq
  have product : numerator.natAbs * one < integerBound * one :=
    Nat.mul_lt_mul_of_pos_right small one_pos
  have bound := nearest_le (numerator.natAbs * one) denominator.natAbs
  have quotient := Nat.div_le_self (numerator.natAbs * one) denominator.natAbs
  generalize integerBound * one = half at limit product
  have finite : nearest (numerator.natAbs * one) denominator.natAbs < overflow := by
    rw [limit]
    omega
  rw [ofRatio?, ofQuotient_of_lt finite, finite?]
  rfl

theorem ne_nan_of_ofRatio? {numerator denominator : Int} {value : Binary64}
    (known : ofRatio? numerator denominator = some value) : value ≠ nan := by
  rintro rfl
  rw [ofRatio?, ofQuotient] at known
  split at known
  · cases known
  · cases known

section Order

variable {left middle right : Binary64}

theorem ne_nan_of_less (smaller : less left right = true) : right ≠ nan := by
  rintro rfl
  cases left <;> cases smaller

theorem lessEq_iff (leftNumber : left ≠ nan) (rightNumber : right ≠ nan) :
    lessEq left right = true ↔ less right left = false := by
  cases left with
  | nan => exact absurd rfl leftNumber
  | infinite => cases right <;> simp_all [lessEq]
  | finite => cases right <;> simp_all [lessEq]

theorem lessEq_total (leftNumber : left ≠ nan) (rightNumber : right ≠ nan) :
    lessEq left right = true ∨ lessEq right left = true := by
  rw [lessEq_iff leftNumber rightNumber, lessEq_iff rightNumber leftNumber]
  cases left with
  | nan => exact absurd rfl leftNumber
  | infinite negative =>
      cases right with
      | nan => exact absurd rfl rightNumber
      | infinite other => cases negative <;> cases other <;> simp [less]
      | finite => cases negative <;> simp [less]
  | finite =>
      cases right with
      | nan => exact absurd rfl rightNumber
      | infinite other => cases other <;> simp [less]
      | finite =>
          simp only [less, decide_eq_false_iff_not]
          omega

theorem ne_nan_of_lessEq (ordered : lessEq left right = true) : left ≠ nan ∧ right ≠ nan := by
  constructor
  · rintro rfl
    cases ordered
  · rintro rfl
    cases left <;> cases ordered

theorem lessEq_trans (left middle right : Binary64) (first : lessEq left middle = true)
    (second : lessEq middle right = true) : lessEq left right = true := by
  obtain ⟨leftNumber, middleNumber⟩ := ne_nan_of_lessEq first
  obtain ⟨-, rightNumber⟩ := ne_nan_of_lessEq second
  rw [lessEq_iff leftNumber middleNumber] at first
  rw [lessEq_iff middleNumber rightNumber] at second
  rw [lessEq_iff leftNumber rightNumber]
  cases left with
  | nan => exact absurd rfl leftNumber
  | infinite leftSign =>
      cases middle <;> cases right <;> simp_all [less]
  | finite =>
      cases middle with
      | nan => exact absurd rfl middleNumber
      | infinite => cases right <;> simp_all [less]
      | finite =>
          cases right with
          | nan => exact absurd rfl rightNumber
          | infinite => simp_all [less]
          | finite =>
              simp only [less, decide_eq_false_iff_not] at first second ⊢
              omega

theorem lessEq_of_less (smaller : less left right = true) : lessEq left right = true := by
  cases left with
  | nan => cases smaller
  | infinite leftSign =>
      cases right with
      | nan => cases smaller
      | infinite rightSign => cases leftSign <;> cases rightSign <;> simp_all [less, lessEq]
      | finite rightSign rightUnits => simp_all [less, lessEq]
  | finite leftSign leftUnits =>
      cases right with
      | nan => cases smaller
      | infinite rightSign => simp_all [less, lessEq]
      | finite rightSign rightUnits =>
          simp only [less, lessEq, decide_eq_true_eq, Bool.not_eq_true',
            decide_eq_false_iff_not] at smaller ⊢
          omega

end Order

/-- A number from zero to one. -/
def IsShare (value : Binary64) : Prop :=
  lessEq 0 value = true ∧ lessEq value 1 = true

theorem isShare_zero : IsShare 0 :=
  ⟨by decide +kernel, by decide +kernel⟩

theorem isShare_one : IsShare 1 :=
  ⟨by decide +kernel, by decide +kernel⟩

theorem isShare_clampUnit (value : Binary64) : IsShare value.clampUnit := by
  have upper : lessEq (if less value 1 then value else 1) 1 = true := by
    split
    · next smaller => exact lessEq_of_less smaller
    · exact isShare_one.2
  unfold clampUnit
  generalize (if less value 1 then value else 1) = bounded at upper
  dsimp only
  split
  · next larger => exact ⟨lessEq_of_less larger, upper⟩
  · exact isShare_zero

end Binary64

end CodeProse
