import CodeProse.Numeric.Number
import CodeProse.Proofs.Numeric.Binary64

/-!
# Doubling numbers

Powers of two below the limit of the format are numbers of the format, so that doubling a number so
many times is a multiplication by such a power, rounded once.
-/

set_option autoImplicit false

namespace CodeProse

theorem roundQuotient_mul_right (numerator denominator : Nat) {factor : Nat} (some : 0 < factor) :
    roundQuotient (numerator * factor) (denominator * factor) =
      roundQuotient numerator denominator := by
  have twice : 2 * (numerator % denominator * factor) = 2 * (numerator % denominator) * factor :=
    (Nat.mul_assoc _ _ _).symm
  simp only [roundQuotient, Nat.mul_div_mul_right _ _ some, Nat.mul_mod_mul_right, twice,
    Nat.mul_lt_mul_right some]

theorem roundQuotient_of_dvd {numerator denominator : Nat} (divides : denominator ∣ numerator)
    (some : 0 < denominator) : roundQuotient numerator denominator = numerator / denominator := by
  simp only [roundQuotient, Nat.mod_eq_zero_of_dvd divides, Nat.mul_zero, if_pos some]

namespace Binary64

theorem nearest_mul_right (numerator denominator : Nat) {factor : Nat} (some : 0 < factor) :
    nearest (numerator * factor) (denominator * factor) = nearest numerator denominator := by
  simp only [nearest, Nat.mul_div_mul_right _ _ some, Nat.mul_right_comm denominator factor,
    roundQuotient_mul_right _ _ some]

theorem ofQuotient_mul_right (negative : Bool) (numerator denominator : Nat) {factor : Nat}
    (some : 0 < factor) :
    ofQuotient negative (numerator * factor) (denominator * factor) =
      ofQuotient negative numerator denominator := by
  rw [ofQuotient, ofQuotient, nearest_mul_right _ _ some]

theorem nearest_two_pow (exponent : Nat) : nearest (Nat.pow 2 exponent) 1 = Nat.pow 2 exponent := by
  have step : spacing (Nat.pow 2 exponent) = Nat.pow 2 (exponent - 52) := by
    rw [spacing]
    exact congrArg (fun height => Nat.pow 2 (height - 52)) (Nat.log2_two_pow)
  have divides : Nat.pow 2 (exponent - 52) ∣ Nat.pow 2 exponent :=
    Nat.pow_dvd_pow 2 (Nat.sub_le exponent 52)
  have some : 0 < Nat.pow 2 (exponent - 52) := Nat.two_pow_pos _
  simp only [nearest, Nat.div_one, Nat.one_mul, step]
  rw [roundQuotient_of_dvd divides some, Nat.div_mul_cancel divides]

theorem two_pow_add (left right : Nat) :
    Nat.pow 2 left * Nat.pow 2 right = Nat.pow 2 (left + right) :=
  (Nat.pow_add 2 left right).symm

theorem two_pow_mul_one (count : Nat) : Nat.pow 2 count * one = Nat.pow 2 (count + 1074) := by
  rw [one, two_pow_add]

theorem two_pow_mul_one_lt_overflow {count : Nat} (small : count < 1024) :
    Nat.pow 2 count * one < overflow := by
  rw [two_pow_mul_one, overflow]
  exact Nat.pow_lt_pow_right (Nat.lt_succ_self 1) (by omega)

theorem ofInt?_two_pow {count : Nat} (small : count < 1024) :
    ofInt? (Nat.pow 2 count) = some (.finite false (Nat.pow 2 count * one)) := by
  have kept : nearest (Nat.pow 2 count * one) 1 = Nat.pow 2 count * one := by
    rw [two_pow_mul_one, nearest_two_pow]
  have finite := two_pow_mul_one_lt_overflow small
  rw [← kept] at finite
  have positive : decide (((Nat.pow 2 count : Nat) : Int) < 0) = false :=
    decide_eq_false (Int.not_lt.mpr (Int.natCast_nonneg _))
  rw [ofInt?, ofRatio?, positive, Int.natAbs_natCast, Int.natAbs_one, ofQuotient_of_lt finite, kept]
  rfl

/-- The number nearest to `value · 2^count`. -/
def scaled : Binary64 → Nat → Binary64
  | .finite negative units, count => ofQuotient negative (units * Nat.pow 2 count) 1
  | other, _ => other

theorem mul_two_pow (value : Binary64) (count : Nat) :
    value * .finite false (Nat.pow 2 count * one) = value.scaled count := by
  have power : Nat.pow 2 count * one ≠ 0 := by
    rw [two_pow_mul_one]
    exact Nat.ne_of_gt (Nat.two_pow_pos _)
  cases value with
  | nan => rfl
  | infinite negative =>
      show mul _ _ = _
      rw [mul, if_neg power, Bool.bne_false]
      rfl
  | finite negative units =>
      have whole := ofQuotient_mul_right negative (units * Nat.pow 2 count) 1 one_pos
      rw [Nat.one_mul, Nat.mul_assoc] at whole
      show mul _ _ = _
      rw [mul, Bool.bne_false, whole]
      rfl

end Binary64

namespace Number

/-- The binary64 number nearest to `number · 2^count`. -/
def scaled : Number → Nat → Binary64
  | whole value, count => toBinary64 (whole (value * Nat.pow 2 count))
  | real value, count => value.scaled count

theorem doubled?_map_toBinary64 (number : Number) {count : Nat} (small : count < 1024) :
    (number.doubled? count).map toBinary64 = some (number.scaled count) := by
  cases number with
  | whole value => rfl
  | real value =>
      rw [doubled?, Binary64.ofInt?_two_pow small, Option.map_some, Binary64.mul_two_pow]
      rfl

end Number

end CodeProse
