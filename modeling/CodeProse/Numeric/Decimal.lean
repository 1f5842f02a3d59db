import CodeProse.Numeric.Binary64
import CodeProse.Text.Basic

/-!
# Decimal texts of numbers

Two ways to write a binary64 number in decimal digits. The *shortest* text has the fewest
digits that read back as the same number, and of those the ones nearest to it; it is
positional from 10^-4 up to, but not including, 10^16. The *fixed* text has a given number of
places, the last one rounded to even when the number lies half way.
-/

set_option autoImplicit false

namespace CodeProse

namespace Binary64

/-- The numbers that round to a positive magnitude lie between these two bounds, in half units.
They include the bounds themselves when the last flag holds. -/
def roundingInterval (units : Nat) : Nat × Nat × Bool :=
  (2 * units - spacing (units - 1), 2 * units + spacing units, units / spacing units % 2 == 0)

def powerOfTen (exponent : Int) : Nat × Nat :=
  if 0 ≤ exponent then (Nat.pow 10 exponent.toNat, 1) else (1, Nat.pow 10 (-exponent).toNat)

/-- Of the two multiples of `10^exponent` around a magnitude, the one that reads back as the
magnitude; of two such, the nearer one. -/
def decimalAt? (units : Nat) (exponent : Int) : Option Nat :=
  let (power, divisor) := powerOfTen exponent
  let grid := power * (2 * one)
  let value := 2 * units * divisor
  let (low, high, closed) := roundingInterval units
  let inside (digits : Nat) : Bool :=
    let point := digits * grid
    if closed then low * divisor ≤ point && point ≤ high * divisor
    else low * divisor < point && point < high * divisor
  let below := value / grid
  match inside below, inside (below + 1) with
  | true, true => some (roundQuotient value grid)
  | true, false => some below
  | false, true => some (below + 1)
  | false, false => none

/-- The exponent of the first decimal digit of a positive magnitude below one, counted down
from `-1`; the first argument bounds the search. -/
def leadingExponentBelow (units : Nat) : Nat → Int → Int
  | 0, exponent => exponent
  | limit + 1, exponent =>
      if one ≤ units * Nat.pow 10 (-exponent).toNat then exponent
      else leadingExponentBelow units limit (exponent - 1)

def leadingExponent (units : Nat) : Int :=
  if one ≤ units then (Nat.toDigits 10 (units / one)).length - 1
  else leadingExponentBelow units 330 (-1)

/-- The fewest decimal digits that read back as a positive magnitude, from `count` digits on,
with the exponent of the last of them. -/
def shortestFrom (units : Nat) (leading : Int) : Nat → Nat → Nat × Int
  | 0, _ => (0, 0)
  | limit + 1, count =>
      let exponent := leading - (count - 1 : Nat)
      match decimalAt? units exponent with
      | some digits => (digits, exponent)
      | none => shortestFrom units leading limit (count + 1)

/-- The digits of the shortest decimal of a positive magnitude, without zeros at the end, and
the place of the decimal point: how many digits stand before it. -/
def shortestDigits (units : Nat) : Text × Int :=
  let (digits, exponent) := shortestFrom units (leadingExponent units) 17 1
  let all := Text.ofNat digits
  let kept := (all.reverse.dropWhile fun digit : CodePoint => digit == '0').reverse
  (kept, all.length + exponent)

/-- Digits with a decimal point after the first `point` of them, and at least one digit on
either side of it. -/
def positional (digits : Text) (point : Int) : Text :=
  if point ≤ 0 then "0.".toText ++ List.replicate (-point).toNat ('0' : CodePoint) ++ digits
  else
    let whole := point.toNat
    if digits.length ≤ whole then
      digits ++ List.replicate (whole - digits.length) ('0' : CodePoint) ++ ".0".toText
    else digits.take whole ++ .scalar '.' :: digits.drop whole

/-- Digits with one of them before the point, and a signed exponent of two digits or more. -/
def scientific (digits : Text) (point : Int) : Text :=
  let exponent := point - 1
  let fraction := if digits.length ≤ 1 then [] else .scalar '.' :: digits.drop 1
  let size := Text.ofNat exponent.natAbs
  let sign : CodePoint := if exponent < 0 then '-' else '+'
  digits.take 1 ++ fraction ++ [.scalar 'e', sign] ++
    List.replicate (2 - size.length) ('0' : CodePoint) ++ size

def withSign (negative : Bool) (magnitude : Text) : Text :=
  if negative then .scalar '-' :: magnitude else magnitude

def shortest : Binary64 → Text
  | nan => "nan"
  | infinite negative => withSign negative "inf"
  | finite negative units =>
      if units = 0 then withSign negative "0.0"
      else
        let (digits, point) := shortestDigits units
        withSign negative
          (if -3 ≤ point && point ≤ 16 then positional digits point
           else scientific digits point)

/-- The text of a number with `places` digits after the point. -/
def fixed (places : Nat) : Binary64 → Text
  | nan => "nan"
  | infinite negative => withSign negative "inf"
  | finite negative units =>
      let scaled := roundQuotient (units * Nat.pow 10 places) one
      let digits := Text.ofNat scaled
      let padded := List.replicate (places + 1 - digits.length) ('0' : CodePoint) ++ digits
      let whole := padded.length - places
      withSign negative
        (padded.take whole ++ (if places = 0 then [] else .scalar '.' :: padded.drop whole))

end Binary64

end CodeProse
