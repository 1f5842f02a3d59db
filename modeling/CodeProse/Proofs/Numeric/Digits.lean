import CodeProse.Numeric.Reading

/-!
# Laws of decimal digits

The digits of a natural number stand for it again, whatever follows them, as long as that is not
another digit. Only zero starts with a zero. An integer may be written if it has no more digits
than may be read.
-/

set_option autoImplicit false

namespace CodeProse

section Digits

variable {digits rest : Text}

theorem splitDigits_append (written : ∀ char ∈ digits, char.isDigit = true)
    (stop : ∀ char ∈ rest.head?, char.isDigit = false) :
    splitDigits (digits ++ rest) = (digits.map fun char => char.toNat - 48, rest) := by
  have behind : rest.takeWhile CodePoint.isDigit = [] ∧ rest.dropWhile CodePoint.isDigit = rest := by
    cases rest with
    | nil => exact ⟨rfl, rfl⟩
    | cons char further =>
        have other : char.isDigit = false := stop char rfl
        exact ⟨List.takeWhile_cons_of_neg (by simp [other]),
          List.dropWhile_cons_of_neg (by simp [other])⟩
  rw [splitDigits, List.takeWhile_append_of_pos written, List.dropWhile_append_of_pos written,
    behind.1, behind.2, List.append_nil]

end Digits

section Natural

theorem Text.digits_of_lt {base number : Nat} (single : number < base) :
    Text.digits base number = [.scalar (Nat.digitChar number)] := by
  rw [Text.digits, Nat.toDigits_of_lt_base single, List.map_singleton]

theorem Text.digits_of_le {base number : Nat} (large : 1 < base) (several : base ≤ number) :
    Text.digits base number =
      Text.digits base (number / base) ++ [.scalar (Nat.digitChar (number % base))] := by
  rw [Text.digits, Nat.toDigits_of_base_le large several, List.map_append, List.map_singleton]
  rfl

variable (number : Nat)

theorem Text.ofNat_ne_nil : Text.ofNat number ≠ [] :=
  fun empty => Nat.toDigits_ne_nil (List.map_eq_nil_iff.mp empty)

theorem Text.isDigit_of_mem_ofNat : ∀ char ∈ Text.ofNat number, char.isDigit = true := by
  intro char member
  obtain ⟨digit, known, rfl⟩ := List.mem_map.mp member
  exact Nat.isDigit_of_mem_toDigits (by decide) (by decide) known

theorem Text.exists_ofNat_eq_cons :
    ∃ first behind, Text.ofNat number = first :: behind ∧ first.isDigit = true := by
  obtain ⟨first, behind, shape⟩ := List.exists_cons_of_ne_nil (Text.ofNat_ne_nil number)
  exact ⟨first, behind, shape,
    Text.isDigit_of_mem_ofNat number first (shape ▸ List.mem_cons_self)⟩

theorem Text.head?_ofNat_ne_zero {number : Nat} (positive : 0 < number) :
    (Text.ofNat number).head? ≠ some (.scalar '0') := by
  induction number using Nat.strongRecOn with
  | ind number ih =>
      rw [Text.ofNat]
      by_cases single : number < 10
      · rw [Text.digits_of_lt single, List.head?_cons, ne_eq, Option.some.injEq,
          CodePoint.scalar.injEq, Nat.digitChar_eq_zero]
        omega
      · have shorter : (Text.ofNat (number / 10)).head? ≠ some (.scalar '0') :=
          ih _ (by omega) (by omega)
        obtain ⟨first, behind, shape, -⟩ := Text.exists_ofNat_eq_cons (number / 10)
        rw [shape] at shorter
        rw [Text.digits_of_le (by decide) (Nat.not_lt.mp single), ← Text.ofNat, shape]
        exact shorter

theorem digitsValue_ofNat :
    digitsValue ((Text.ofNat number).map fun char => char.toNat - 48) = number := by
  have folded := Nat.ofDigitChars_ten_toDigits (n := number)
  rw [Nat.ofDigitChars_eq_foldl] at folded
  rw [digitsValue, List.foldl_map, Text.ofNat, Text.digits, List.foldl_map]
  simpa [Nat.mul_comm, CodePoint.toNat] using folded

end Natural

theorem isUnwritable_eq_false_iff {value : Int} :
    isUnwritable value = false ↔ (Text.ofNat value.natAbs).length ≤ integerDigitLimit := by
  have positive : 0 < integerDigitLimit := by decide
  unfold isUnwritable
  -- The power itself is never computed.
  generalize integerDigitLimit = limit at positive
  rw [decide_eq_false_iff_not, Nat.not_le]
  rw [Text.ofNat, Text.digits, List.length_map]
  exact (Nat.length_toDigits_le_iff (by decide) positive).symm

end CodeProse
