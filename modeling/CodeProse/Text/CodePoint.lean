/-!
# Code points

What texts are made of: the characters of Unicode, and the halves of surrogate pairs. Such a half
may stand alone in a text, but has no form in UTF-8.
-/

set_option autoImplicit false

namespace CodeProse

inductive CodePoint where
  | scalar (char : Char)
  | surrogate (index : Fin 2048)
deriving DecidableEq

namespace CodePoint

instance : Coe Char CodePoint := ⟨scalar⟩

instance : Inhabited CodePoint := ⟨'\x00'⟩

def toNat : CodePoint → Nat
  | scalar char => char.toNat
  | surrogate index => 0xD800 + index

@[simp]
theorem beq_scalar (left right : Char) :
    ((scalar left : CodePoint) == scalar right) = (left == right) := by
  rw [Bool.eq_iff_iff, beq_iff_eq, beq_iff_eq, scalar.injEq]

@[simp]
theorem toNat_scalar (char : Char) : (scalar char).toNat = char.toNat := rfl

/-- The code point of a number; a number beyond all of them stands for the first one. -/
def ofNat (code : Nat) : CodePoint :=
  if half : 0xD800 ≤ code ∧ code < 0xE000 then surrogate ⟨code - 0xD800, by omega⟩
  else scalar (Char.ofNat code)

@[simp]
theorem ofNat_toNat (char : CodePoint) : ofNat char.toNat = char := by
  cases char with
  | scalar char =>
      have valid : char.toNat < 0xD800 ∨ 0xDFFF < char.toNat ∧ char.toNat < 0x110000 := char.valid
      rw [ofNat, dif_neg (by simp only [toNat]; omega), toNat, Char.ofNat_toNat]
  | surrogate index =>
      have small := index.isLt
      rw [ofNat, dif_pos (by simp only [toNat]; omega)]
      simp only [toNat, Nat.add_sub_cancel_left]

theorem toNat_injective {left right : CodePoint} (same : left.toNat = right.toNat) :
    left = right := by
  rw [← ofNat_toNat left, same, ofNat_toNat]

theorem toNat_lt (char : CodePoint) : char.toNat < 0x110000 := by
  cases char with
  | scalar char =>
      have valid : char.toNat < 0xD800 ∨ 0xDFFF < char.toNat ∧ char.toNat < 0x110000 := char.valid
      rw [toNat]
      omega
  | surrogate index =>
      have small := index.isLt
      rw [toNat]
      omega

instance : LT CodePoint := ⟨fun left right => left.toNat < right.toNat⟩

instance : LE CodePoint := ⟨fun left right => left.toNat ≤ right.toNat⟩

instance (left right : CodePoint) : Decidable (left < right) :=
  inferInstanceAs (Decidable (left.toNat < right.toNat))

instance (left right : CodePoint) : Decidable (left ≤ right) :=
  inferInstanceAs (Decidable (left.toNat ≤ right.toNat))

/-- The character that a code point is; half of a surrogate pair is none. -/
def char? : CodePoint → Option Char
  | scalar char => some char
  | surrogate _ => none

/-- A digit of ASCII. -/
def isDigit : CodePoint → Bool
  | scalar char => char.isDigit
  | surrogate _ => false

@[simp]
theorem isDigit_scalar (char : Char) : (scalar char).isDigit = char.isDigit := by
  rw [isDigit]

/-- A letter or a digit of ASCII. -/
def isAlphanum : CodePoint → Bool
  | scalar char => char.isAlphanum
  | surrogate _ => false

@[simp]
theorem isAlphanum_scalar (char : Char) : (scalar char).isAlphanum = char.isAlphanum := by
  rw [isAlphanum]

/-- A letter of ASCII in lower case; every other code point is kept. -/
def asciiLower : CodePoint → CodePoint
  | scalar char => scalar char.toLower
  | surrogate index => surrogate index

end CodePoint

end CodeProse
