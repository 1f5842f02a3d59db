import CodeProse.Json.Basic

/-!
# Numbers of either kind

A setting that may be whole or a fraction, and is passed on as it was given.
-/

set_option autoImplicit false

namespace CodeProse

inductive Number where
  | whole (value : Int)
  | real (value : Binary64)
deriving DecidableEq

namespace Number

def isZero : Number → Bool
  | whole value => value = 0
  | real value => value.isZero

def whole? : Number → Option Int
  | whole value => some value
  | real _ => none

def toJson : Number → Json
  | whole value => .int value
  | real value => .float value

def ofJson? : Json → Option Number
  | .int value => some (whole value)
  | .float value => some (real value)
  | _ => none

/-- The binary64 number nearest to a number; infinite where a whole one lies beyond. -/
def toBinary64 : Number → Binary64
  | whole value => (Binary64.ofInt? value).getD (.infinite (value < 0))
  | real value => value

/-- The number doubled `count` times. A fraction can be doubled at most 1023 times. -/
def doubled? (number : Number) (count : Nat) : Option Number :=
  match number with
  | whole value => some (whole (value * Nat.pow 2 count))
  | real value => (Binary64.ofInt? (Nat.pow 2 count)).map fun factor => real (value * factor)

end Number

end CodeProse
