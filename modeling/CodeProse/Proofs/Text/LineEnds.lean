import CodeProse.Proofs.Sequence
import CodeProse.Text.Encoding

/-!
# Line ends

A text as it stands on a disk is cut into units: its characters, and each of its line ends in one
piece. When the line ends are made uniform, every unit becomes one character.
-/

set_option autoImplicit false

namespace CodeProse

namespace Text

/-- The characters of a text, a carriage return and the line feed behind it in one piece. -/
def units : Text → List Text
  | '\r' :: '\n' :: rest => ['\r', '\n'] :: units rest
  | '\r' :: rest => ['\r'] :: units rest
  | char :: rest => [char] :: units rest
  | [] => []

/-- What stands on a disk for a character of a text with uniform line ends. -/
inductive IsUnit : Text → CodePoint → Prop where
  | plain {char : CodePoint} : char ≠ '\r' → IsUnit [char] char
  | carriageReturn : IsUnit ['\r'] '\n'
  | both : IsUnit ['\r', '\n'] '\n'

theorem flatten_units (text : Text) : text.units.flatten = text := by
  induction text using units.induct with
  | case1 rest ih => rw [units, List.flatten_cons, ih]; rfl
  | case2 rest single ih => rw [units.eq_2 rest single, List.flatten_cons, ih]; rfl
  | case3 char rest crlf single ih =>
      rw [units.eq_3 char rest crlf single, List.flatten_cons, ih, List.singleton_append]
  | case4 => rfl

theorem forall₂_units (text : Text) : List.Forall₂ IsUnit text.units text.uniformLineEnds := by
  induction text using units.induct with
  | case1 rest ih => exact .cons .both ih
  | case2 rest single ih =>
      rw [units.eq_2 rest single, uniformLineEnds.eq_2 rest single]
      exact .cons .carriageReturn ih
  | case3 char rest crlf single ih =>
      rw [units.eq_3 char rest crlf single, uniformLineEnds.eq_3 char rest crlf single]
      exact .cons (.plain single) ih
  | case4 => exact .nil

theorem length_units (text : Text) : text.units.length = text.uniformLineEnds.length :=
  text.forall₂_units.length_eq

theorem uniformLineEnds_of_notMem {text : Text} (clear : .scalar '\r' ∉ text) :
    text.uniformLineEnds = text := by
  induction text using units.induct with
  | case1 rest ih => exact absurd List.mem_cons_self clear
  | case2 rest single ih => exact absurd List.mem_cons_self clear
  | case3 char rest crlf single ih =>
      rw [uniformLineEnds.eq_3 char rest crlf single, ih (List.not_mem_of_not_mem_cons clear)]
  | case4 => rfl

variable {unit : Text} {char : CodePoint}

theorem IsUnit.eq_singleton (one : IsUnit unit char) (clear : .scalar '\r' ∉ unit) : unit = [char] := by
  cases one with
  | plain => rfl
  | carriageReturn => exact absurd List.mem_cons_self clear
  | both => exact absurd List.mem_cons_self clear

theorem IsUnit.char_eq (one : IsUnit unit char) (rough : .scalar '\r' ∈ unit) : char = '\n' := by
  cases one with
  | plain other => exact absurd (List.mem_singleton.mp rough).symm other
  | carriageReturn => rfl
  | both => rfl

theorem IsUnit.length_pos (one : IsUnit unit char) : 0 < unit.length := by
  cases one <;> exact Nat.succ_pos _

theorem IsUnit.char_ne (one : IsUnit unit char) : char ≠ '\r' := by
  cases one with
  | plain other => exact other
  | carriageReturn => decide
  | both => decide

theorem notMem_uniformLineEnds (text : Text) : .scalar '\r' ∉ text.uniformLineEnds := by
  intro member
  obtain ⟨unit, -, one⟩ := exists_aligned_of_mem_right text.forall₂_units member
  exact one.char_ne rfl

@[simp] theorem uniformLineEnds_uniformLineEnds (text : Text) :
    text.uniformLineEnds.uniformLineEnds = text.uniformLineEnds :=
  uniformLineEnds_of_notMem text.notMem_uniformLineEnds

end Text

end CodeProse
