/-!
# Binary64 numbers

The numbers of the IEEE 754 double format, as exact values. Every finite magnitude is a whole
number of *units* of 2^-1074, so sums, products and quotients are computed exactly on natural
numbers and rounded once: to the nearest number that the format holds, ties to the one with an
even significand.
-/

set_option autoImplicit false

namespace CodeProse

/-- A double-precision number. A finite one is a sign and a magnitude in units of 2^-1074. -/
inductive Binary64 where
  | nan
  | infinite (negative : Bool)
  | finite (negative : Bool) (units : Nat)
deriving DecidableEq

/-- The natural number nearest to a quotient; of two equally near, the even one. -/
def roundQuotient (numerator denominator : Nat) : Nat :=
  let quotient := numerator / denominator
  let twice := 2 * (numerator % denominator)
  if twice < denominator then quotient
  else if denominator < twice then quotient + 1
  else quotient + quotient % 2

namespace Binary64

/-- The number one, in units. -/
def one : Nat := Nat.pow 2 1074

/-- The least power of two beyond the format, in units. -/
def overflow : Nat := Nat.pow 2 2098

/-- The distance between neighbours of the format at a magnitude. -/
def spacing (units : Nat) : Nat :=
  Nat.pow 2 (Nat.log2 units - 52)

/-- The magnitude of the format nearest to a quotient of units, were there no largest one. -/
def nearest (numerator denominator : Nat) : Nat :=
  let step := spacing (numerator / denominator)
  roundQuotient numerator (denominator * step) * step

def ofQuotient (negative : Bool) (numerator denominator : Nat) : Binary64 :=
  let units := nearest numerator denominator
  if overflow ≤ units then .infinite negative else .finite negative units

def finite? : Binary64 → Option Binary64
  | finite negative units => some (finite negative units)
  | _ => none

/-- The number nearest to a quotient of integers, unless it lies beyond the format. A zero has
the sign that the two signs give. -/
def ofRatio? (numerator denominator : Int) : Option Binary64 :=
  finite?
    (ofQuotient ((numerator < 0) != (denominator < 0)) (numerator.natAbs * one)
      denominator.natAbs)

def ofInt? (value : Int) : Option Binary64 :=
  ofRatio? value 1

def ofNat (value : Nat) : Binary64 :=
  ofQuotient false (value * one) 1

/-- The number nearest to a decimal fraction `digits · 10^-places`. -/
def ofFraction (digits places : Nat) : Binary64 :=
  ofQuotient false (digits * one) (Nat.pow 10 places)

instance (value : Nat) : OfNat Binary64 value := ⟨ofNat value⟩

instance : Inhabited Binary64 := ⟨.finite false 0⟩

/-- The number nearest to a decimal `digits · 10^exponent`, where `digits` has `count` decimal
digits. Decimals far outside the format are decided by their size alone. -/
def ofDecimal (negative : Bool) (digits count : Nat) (exponent : Int) : Binary64 :=
  if digits = 0 then .finite negative 0
  else if 400 < count + exponent then .infinite negative
  else if count + exponent < -400 then .finite negative 0
  else if 0 ≤ exponent then ofQuotient negative (digits * Nat.pow 10 exponent.toNat * one) 1
  else ofQuotient negative (digits * one) (Nat.pow 10 (-exponent).toNat)

/-- The units of a finite number, with its sign. -/
def signed (negative : Bool) (units : Nat) : Int :=
  if negative then -units else units

def neg : Binary64 → Binary64
  | nan => nan
  | infinite negative => infinite !negative
  | finite negative units => finite (!negative) units

/-- The sum, rounded. A sum of zero is negative only when both terms are. -/
def add : Binary64 → Binary64 → Binary64
  | nan, _ => nan
  | _, nan => nan
  | infinite left, infinite right => if left = right then infinite left else nan
  | infinite left, finite _ _ => infinite left
  | finite _ _, infinite right => infinite right
  | finite leftSign left, finite rightSign right =>
      let sum := signed leftSign left + signed rightSign right
      if sum = 0 then finite (leftSign && rightSign) 0
      else ofQuotient (sum < 0) sum.natAbs 1

def sub (left right : Binary64) : Binary64 :=
  left.add right.neg

def mul : Binary64 → Binary64 → Binary64
  | nan, _ => nan
  | _, nan => nan
  | infinite left, infinite right => infinite (left != right)
  | infinite left, finite sign units => if units = 0 then nan else infinite (left != sign)
  | finite sign units, infinite right => if units = 0 then nan else infinite (sign != right)
  | finite leftSign left, finite rightSign right =>
      ofQuotient (leftSign != rightSign) (left * right) one

/-- The quotient, rounded; division by zero gives an infinity, or no number for zero. -/
def div : Binary64 → Binary64 → Binary64
  | nan, _ => nan
  | _, nan => nan
  | infinite _, infinite _ => nan
  | infinite left, finite sign _ => infinite (left != sign)
  | finite sign _, infinite right => finite (sign != right) 0
  | finite leftSign left, finite rightSign right =>
      if right = 0 then
        if left = 0 then nan else infinite (leftSign != rightSign)
      else ofQuotient (leftSign != rightSign) (left * one) right

instance : Neg Binary64 := ⟨neg⟩
instance : Add Binary64 := ⟨add⟩
instance : Sub Binary64 := ⟨sub⟩
instance : Mul Binary64 := ⟨mul⟩
instance : Div Binary64 := ⟨div⟩

/-- Whether the first number is smaller. Nothing is smaller or larger than `nan`, and the two
zeros are equal. -/
def less : Binary64 → Binary64 → Bool
  | nan, _ => false
  | _, nan => false
  | infinite left, infinite right => left && !right
  | infinite left, finite _ _ => left
  | finite _ _, infinite right => !right
  | finite leftSign left, finite rightSign right => signed leftSign left < signed rightSign right

def lessEq : Binary64 → Binary64 → Bool
  | nan, _ => false
  | _, nan => false
  | left, right => !less right left

def isZero : Binary64 → Bool
  | finite _ units => units = 0
  | _ => false

/-- A number moved to the nearest one from zero to one; `nan` becomes one. -/
def clampUnit (value : Binary64) : Binary64 :=
  let upper : Binary64 := if less value 1 then value else 1
  if less 0 upper then upper else 0

end Binary64

end CodeProse
